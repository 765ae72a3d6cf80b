import StoreBench.Proofs.Store.Faithful
import StoreBench.Store.Session

/-! Sessions with a memory. A history takes the steps of a session and writes down what their
answers tell: the calls of every transaction, and the transactions that committed, in commit
order. The session itself is the plain one; no step depends on what is written down. -/
namespace StoreBench

/-- A session with what is written down of it. -/
structure History where
  session : Session := {}
  /-- The transactions whose commit was answered OK, the oldest commit first. -/
  committed : List Traced := []
  /-- The last transaction that began under each name. -/
  traces : String → Trace := fun _ => {}

/-- Whether the action ends with a commit. Loading pairs does. -/
def Action.isCommit : Action → Bool
  | .populate _ | .commit _ => true
  | _ => false

namespace Session

theorem find_set (session : Session) (name other : String) (tx : OpenTransaction) :
    (session.set name tx).find other = if other = name then some tx else session.find other :=
  getElem?_insert_eq session.opened name other tx

theorem find_close (session : Session) (name other : String) :
    (session.close name).find other = if other = name then none else session.find other :=
  getElem?_erase_eq session.opened name other

variable {session : Session} {name : String} (act : OpenTransaction → Answer × Session)

theorem withOpen_none (hFind : session.find name = none) :
    session.withOpen name act = (.unknown, session) := by
  rw [withOpen, hFind]

theorem withOpen_some {tx : OpenTransaction} (hFind : session.find name = some tx) :
    session.withOpen name act = act tx := by
  rw [withOpen, hFind]

theorem step_commit {tx : OpenTransaction} (hFind : session.find name = some tx) :
    session.step (.commit name) =
      (.status (session.store.verdict tx),
        { session.close name with store := (session.store.commit tx).2 }) := by
  rw [step, withOpen_some _ hFind, ← session.store.commit_status tx]

theorem step_populate (samples : SampleSet) :
    session.step (.populate samples) =
      (.status (session.store.populate samples).1,
        { session with store := (session.store.populate samples).2 }) := rfl

end Session

namespace History

variable (h : History)

/-- The number of commits so far. -/
def now : Nat := h.committed.length

/-- The open transaction of this name, with its trace. -/
def opened (name : String) : Option Traced :=
  (h.session.find name).map fun handle => { h.traces name with handle }

/-- The transactions that an answer reports as committed. -/
def commits : Action → Answer → List Traced
  | .populate samples, .status .ok => [Traced.loading h.session.store h.now samples]
  | .commit name, .status .ok => (h.opened name).toList
  | _, _ => []

/-- The traces with one more event under this name. -/
def extended (name : String) (event : Event) : String → Trace :=
  let trace := h.traces name
  Function.update h.traces name { trace with events := trace.events ++ [event] }

/-- The traces after an answer. A call that reached no open transaction leaves none. -/
def tracesAfter : Action → Answer → String → Trace
  | .start name, _ => Function.update h.traces name { began := h.now }
  | .read name key, .value status value => h.extended name (.read h.now key value status)
  | .write name key value, .status status => h.extended name (.write h.now key value status)
  | .drop name key, .status status => h.extended name (.drop h.now key status)
  | _, _ => h.traces

def step (action : Action) : History :=
  let (answer, session) := h.session.step action
  { session
    committed := h.committed ++ h.commits action answer
    traces := h.tracesAfter action answer }

/-- The history of a run of actions that starts with the empty store. -/
def after (actions : List Action) : History := actions.foldl step {}

/-- Writing down changes nothing: the session is the one that the actions alone lead to. -/
theorem session_after (actions : List Action) :
    (after actions).session =
      actions.foldl (fun session action => (session.step action).2) ({} : Session) := by
  have general (h : History) : (actions.foldl step h).session =
      actions.foldl (fun session action => (session.step action).2) h.session := by
    induction actions generalizing h with
    | nil => rfl
    | cons action rest ih => exact ih (h.step action)
  exact general {}

@[simp] theorem after_snoc (actions : List Action) (action : Action) :
    after (actions ++ [action]) = (after actions).step action := by
  simp [after]

theorem opened_of_find {name : String} {handle : OpenTransaction}
    (hFind : h.session.find name = some handle) :
    h.opened name = some { h.traces name with handle } := by
  rw [opened, hFind, Option.map_some]

variable {h} {later : History}

theorem opened_update {name : String} {handle : OpenTransaction} {trace : Trace}
    (hFind : ∀ other, later.session.find other =
      if other = name then some handle else h.session.find other)
    (hTraces : later.traces = Function.update h.traces name trace) (other : String) :
    later.opened other = if other = name then some { trace with handle } else h.opened other := by
  rw [opened, opened, hFind, hTraces, Function.update_apply]
  split <;> rfl

theorem opened_close {name : String}
    (hFind : ∀ other, later.session.find other =
      if other = name then none else h.session.find other)
    (hTraces : later.traces = h.traces) (other : String) :
    later.opened other = if other = name then none else h.opened other := by
  rw [opened, opened, hFind, hTraces]
  split <;> rfl

variable (h)

/-- What every reachable history has in common: its log accounts for the store, for the transactions
that are open, and for the commits that were answered OK. -/
structure Sound : Prop where
  store : Reflects h.committed h.session.store
  opened : ∀ name tx, h.opened name = some tx → Faithful h.committed tx
  committed : ∀ n tx, h.committed[n]? = some tx → Settled (h.committed.take n) tx

namespace Sound

variable {h : History} {later : History}

theorem empty : Sound {} where
  store := Reflects.empty
  opened := by
    intro name tx hOpened
    simp [History.opened, Session.find] at hOpened
  committed := by
    intro n tx hTx
    simp at hTx

/-- A step that commits nothing and opens only what belongs to its trace. -/
theorem of_opened (hSound : Sound h) (hStore : later.session.store = h.session.store)
    (hCommitted : later.committed = h.committed)
    (hOpened : ∀ name tx, later.opened name = some tx →
      h.opened name = some tx ∨ Faithful h.committed tx) : Sound later where
  store := by
    rw [hStore, hCommitted]
    exact hSound.store
  opened := by
    intro name tx hTx
    rw [hCommitted]
    rcases hOpened name tx hTx with hBefore | hFaithful
    · exact hSound.opened name tx hBefore
    · exact hFaithful
  committed := by
    rw [hCommitted]
    exact hSound.committed

/-- A step that commits a transaction, or is refused to. -/
theorem of_commit (hSound : Sound h) {tx : Traced} (hFaithful : Faithful h.committed tx)
    (hStore : later.session.store = (h.session.store.commit tx.handle).2)
    (hCommitted : later.committed = h.committed ++
      if h.session.store.verdict tx.handle = .ok then [tx] else [])
    (hOpened : ∀ name tx, later.opened name = some tx → h.opened name = some tx) :
    Sound later := by
  by_cases hOk : h.session.store.verdict tx.handle = .ok
  · rw [if_pos hOk] at hCommitted
    refine ⟨?_, ?_, ?_⟩
    · rw [hStore, hCommitted]
      exact hSound.store.commit hOk
    · intro name other hOther
      rw [hCommitted]
      exact (hSound.opened name other (hOpened name other hOther)).grow tx
    · intro n other hOther
      rw [hCommitted] at hOther ⊢
      rcases getElem?_snoc_iff.mp hOther with hEarlier | ⟨rfl, rfl⟩
      · rw [take_snoc hEarlier]
        exact hSound.committed n other hEarlier
      · rw [List.take_left]
        exact hFaithful.settled hSound.store hOk
  · rw [if_neg hOk, List.append_nil] at hCommitted
    rw [h.session.store.commit_unchanged tx.handle (Or.inl hOk)] at hStore
    exact hSound.of_opened hStore hCommitted fun name other hOther =>
      Or.inl (hOpened name other hOther)

/-- A call in an open transaction concerns no other one. -/
theorem of_call (hSound : Sound h) {action : Action} {answer : Answer} {name : String}
    {tx : Traced} {handle : OpenTransaction} {event : Event} (hOpen : h.opened name = some tx)
    (hStep : h.session.step action = (answer, h.session.set name handle))
    (hCommits : h.commits action answer = [])
    (hTraces : h.tracesAfter action answer = h.extended name event)
    (hFaithful : Faithful h.committed (tx.noted handle event)) : Sound (h.step action) := by
  obtain ⟨old, _, rfl⟩ := Option.map_eq_some_iff.mp hOpen
  have hLater : h.step action =
      ⟨h.session.set name handle, h.committed, h.extended name event⟩ := by
    rw [History.step, hStep]
    simp only [hCommits, hTraces, List.append_nil]
  rw [hLater]
  refine hSound.of_opened rfl rfl ?_
  intro other found hFound
  rw [opened_update (h.session.find_set name · handle) rfl] at hFound
  split at hFound
  · cases hFound
    exact Or.inr hFaithful
  · exact Or.inl hFound

/-- An action on a transaction that is not open changes nothing. -/
theorem of_unknown (hSound : Sound h) {action : Action}
    (hStep : h.session.step action = (.unknown, h.session))
    (hCommits : h.commits action .unknown = [])
    (hTraces : h.tracesAfter action .unknown = h.traces) : Sound (h.step action) := by
  have hSame : h.step action = h := by
    rw [History.step, hStep]
    simp only [hCommits, hTraces, List.append_nil]
  rw [hSame]
  exact hSound

theorem start (hSound : Sound h) (name : String) : Sound (h.step (.start name)) := by
  refine hSound.of_opened rfl (List.append_nil _) ?_
  intro other found hFound
  rw [opened_update (h.session.find_set name · h.session.store.start) rfl] at hFound
  split at hFound
  · cases hFound
    exact Or.inr (.start hSound.store)
  · exact Or.inl hFound

theorem abandon (hSound : Sound h) {name : String} {handle : OpenTransaction}
    (hFind : h.session.find name = some handle) : Sound (h.step (.abandon name)) := by
  have hStep : h.session.step (.abandon name) = (.done, h.session.close name) :=
    Session.withOpen_some _ hFind
  have hSession : (h.step (.abandon name)).session = h.session.close name := by
    rw [History.step, hStep]
  have hOpened := opened_close (h := h) (by rw [hSession]; exact h.session.find_close name)
    (rfl : (h.step (.abandon name)).traces = h.traces)
  refine hSound.of_opened (by rw [hSession]; rfl) (List.append_nil _) ?_
  intro other found hFound
  rw [hOpened] at hFound
  split at hFound
  · cases hFound
  · exact Or.inl hFound

theorem commit (hSound : Sound h) {name : String} {handle : OpenTransaction}
    (hFind : h.session.find name = some handle) : Sound (h.step (.commit name)) := by
  have hOpen := h.opened_of_find hFind
  have hStep := Session.step_commit hFind
  have hCommits (status : Status) : h.commits (.commit name) (.status status) =
      if status = .ok then [{ h.traces name with handle }] else [] := by
    cases status <;> simp [commits, hOpen]
  have hSession : (h.step (.commit name)).session =
      { h.session.close name with store := (h.session.store.commit handle).2 } := by
    rw [History.step, hStep]
  have hOpened := opened_close (h := h) (by rw [hSession]; exact h.session.find_close name)
    (rfl : (h.step (.commit name)).traces = h.traces)
  refine hSound.of_commit (hSound.opened name _ hOpen) (by rw [hSession]) ?_ ?_
  · rw [History.step, hStep, ← hCommits]
  · intro other found hFound
    rw [hOpened] at hFound
    split at hFound
    · cases hFound
    · exact hFound

theorem populate (hSound : Sound h) (samples : SampleSet) :
    Sound (h.step (.populate samples)) := by
  have hFaithful : Faithful h.committed (.loading h.session.store h.now samples) :=
    .loading hSound.store samples
  have hStep := h.session.step_populate samples
  rw [Traced.populate_eq h.session.store h.now samples, VersionedStore.commit_status] at hStep
  have hCommits (status : Status) : h.commits (.populate samples) (.status status) =
      if status = .ok then [.loading h.session.store h.now samples] else [] := by
    cases status <;> rfl
  refine hSound.of_commit hFaithful ?_ ?_ ?_
  · rw [History.step, hStep]
  · rw [History.step, hStep, ← hCommits]
  · intro other found hFound
    exact hFound

/-- Every action keeps a history sound. -/
theorem step (hSound : Sound h) (action : Action) : Sound (h.step action) := by
  cases action with
  | populate samples => exact hSound.populate samples
  | start name => exact hSound.start name
  | read name key =>
      cases hFind : h.session.find name with
      | none => exact hSound.of_unknown (Session.withOpen_none _ hFind) rfl rfl
      | some handle =>
          have hOpen := h.opened_of_find hFind
          exact hSound.of_call hOpen (Session.withOpen_some _ hFind) rfl rfl
            ((hSound.opened name _ hOpen).read hSound.store key)
  | write name key value =>
      cases hFind : h.session.find name with
      | none => exact hSound.of_unknown (Session.withOpen_none _ hFind) rfl rfl
      | some handle =>
          have hOpen := h.opened_of_find hFind
          exact hSound.of_call hOpen (Session.withOpen_some _ hFind) rfl rfl
            ((hSound.opened name _ hOpen).write hSound.store key value)
  | drop name key =>
      cases hFind : h.session.find name with
      | none => exact hSound.of_unknown (Session.withOpen_none _ hFind) rfl rfl
      | some handle =>
          have hOpen := h.opened_of_find hFind
          exact hSound.of_call hOpen (Session.withOpen_some _ hFind) rfl rfl
            ((hSound.opened name _ hOpen).drop hSound.store key)
  | commit name =>
      cases hFind : h.session.find name with
      | none => exact hSound.of_unknown (Session.withOpen_none _ hFind) rfl rfl
      | some handle => exact hSound.commit hFind
  | abandon name =>
      cases hFind : h.session.find name with
      | none => exact hSound.of_unknown (Session.withOpen_none _ hFind) rfl rfl
      | some handle => exact hSound.abandon hFind

end Sound

theorem sound_after (actions : List Action) : Sound (after actions) := by
  induction actions using List.reverseRecOn with
  | nil => exact Sound.empty
  | append_singleton actions action ih =>
      rw [after_snoc]
      exact ih.step action

theorem commits_length_le (action : Action) (answer : Answer) :
    (h.commits action answer).length ≤ [action].countP Action.isCommit := by
  rw [commits.eq_def]
  split
  · exact Nat.le_refl 1
  · exact Option.length_toList_le
  · exact Nat.zero_le _

/-- Versions do not run ahead of the commits that were asked for. -/
theorem version_le (actions : List Action) :
    (after actions).session.store.version ≤ actions.countP Action.isCommit := by
  have hCommitted : (after actions).committed.length ≤ actions.countP Action.isCommit := by
    induction actions using List.reverseRecOn with
    | nil => exact Nat.le_refl 0
    | append_singleton actions action ih =>
        rw [after_snoc, step, List.length_append, List.countP_append]
        exact Nat.add_le_add ih (commits_length_le ..)
  rw [(sound_after actions).store.version]
  exact Nat.le_trans (List.length_filter_le ..) hCommitted

end History

end StoreBench
