/-! What can be wrong with a document. Documents are read from left to right into a fixed shape,
and the first thing wrong decides, whatever follows it. -/
namespace StoreBench

inductive DocumentFault where
  /-- Not well-formed text. -/
  | malformed
  /-- A value of another type than the shape asks for, or a field missing or repeated. -/
  | mistyped
  /-- The text ends too early. -/
  | truncated
  /-- The bytes could not be had at all. -/
  | unreadable
deriving DecidableEq, Repr

end StoreBench
