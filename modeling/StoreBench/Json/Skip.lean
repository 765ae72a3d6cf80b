import StoreBench.Json.Token

/-! Skipping a value that nobody asked for. A pushdown automaton checks its form alone, at any
depth of nesting: texts may hold anything, numbers may be of any size, and names may repeat. -/
namespace StoreBench.Json.Skip

/-- An open array or object. -/
inductive Frame where
  | array
  | object
deriving DecidableEq, Repr

/-- What the next token has to be. -/
inductive Place where
  | value
  | name
  | colon
  /-- Right after an opening bracket or brace: an end, or a first item. -/
  | start
  /-- After a value inside the innermost frame: an end, or a comma. -/
  | follow
deriving DecidableEq, Repr

/-- The place of an item. -/
def Frame.item : Frame → Place
  | .array => .value
  | .object => .name

def Frame.closedBy : Frame → Token → Bool
  | .array, .closeBracket => true
  | .object, .closeBrace => true
  | _, _ => false

/-- Where to go on, and inside which frames, innermost first; nothing once the value is complete. -/
abbrev Next := Option (Place × List Frame)

def afterValue : List Frame → Next
  | [] => none
  | frames => some (.follow, frames)

/-- A value begins. A number cut off by the end counts as badly formed, for nobody reads it. -/
def value (frames : List Frame) : Token → Except DocumentFault Next
  | .null | .boolean _ | .number _ | .text _ none => .ok (afterValue frames)
  | .openBracket => .ok (some (.start, .array :: frames))
  | .openBrace => .ok (some (.start, .object :: frames))
  | .text _ (some fault) | .stray fault => .error fault
  | _ => .error .malformed

def name (frames : List Frame) : Token → Except DocumentFault Next
  | .text _ none => .ok (some (.colon, frames))
  | .text _ (some fault) => .error fault
  | _ => .error .malformed

def step (place : Place) (frames : List Frame) (token : Token) : Except DocumentFault Next :=
  match place, frames with
  | .value, _ => value frames token
  | .name, _ => name frames token
  | .colon, _ => if token = .colon then .ok (some (.value, frames)) else .error .malformed
  | .start, frame :: outer =>
    if frame.closedBy token then .ok (afterValue outer)
    else if frame = .array then value frames token
    else name frames token
  | .follow, frame :: outer =>
    if frame.closedBy token then .ok (afterValue outer)
    else if token = .comma then .ok (some (frame.item, frames))
    else .error .malformed
  | _, [] => .error .malformed

/-- The tokens after the value that begins here. -/
def run (place : Place) (frames : List Frame) : List Token → Except DocumentFault (List Token)
  | [] => .error .truncated
  | token :: rest =>
    match step place frames token with
    | .error fault => .error fault
    | .ok none => .ok rest
    | .ok (some (place, frames)) => run place frames rest

end StoreBench.Json.Skip
