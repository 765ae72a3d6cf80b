import StoreBench.Proofs.Store.Log

/-! What a handle knows, said in terms of the log. Between two calls of a transaction others may
commit, so every answer is explained by the log as it was at the moment of the call; the handle
remembers just enough of the calls for the commit to find out what has changed since. -/
namespace StoreBench

/-- What a transaction sees of a key: its own last change, and else what it finds in the store. -/
def view (log : List Traced) (began : Nat) (prior : List Event) (key : Bytes) : Option Bytes :=
  ((changesOf prior).last key).getD (seen log began key)

/-- How a call is answered by a store with this log, in a transaction that began after `began`
commits and has made the calls `prior`. -/
def Explained (log : List Traced) (began : Nat) (prior : List Event) : Event → Prop
  | .read _ key value status =>
      value = view log began prior key ∧ status = VersionedStore.found value
  | .write _ key _ status =>
      status = if touched (log.drop began) key then .valueNotFound else .ok
  | .drop _ key status => status = VersionedStore.found (view log began prior key)

/-- Some read of the key was not answered from the transaction's own changes. -/
def ReadThrough (events : List Event) (key : Bytes) : Prop :=
  ∃ (i moment : Nat) (value : Option Bytes) (status : Status),
    events[i]? = some (.read moment key value status) ∧ (changesOf (events.take i)).last key = none

/-- Some write came after a commit that the transaction does not see had touched its key. -/
def Overtaken (log : List Traced) (tx : Traced) : Prop :=
  ∃ (moment : Nat) (key value : Bytes) (status : Status),
    .write moment key value status ∈ tx.events ∧
      touched ((log.take moment).drop tx.began) key = true

theorem readThrough_snoc (events : List Event) (event : Event) (key : Bytes) :
    ReadThrough (events ++ [event]) key ↔ ReadThrough events key ∨
      ∃ moment value status, event = .read moment key value status ∧
        (changesOf events).last key = none := by
  constructor
  · rintro ⟨i, moment, value, status, hEvent, hOwn⟩
    rcases getElem?_snoc_iff.mp hEvent with hEarlier | ⟨rfl, hLast⟩
    · rw [take_snoc hEarlier] at hOwn
      exact Or.inl ⟨i, moment, value, status, hEarlier, hOwn⟩
    · rw [List.take_left] at hOwn
      exact Or.inr ⟨moment, value, status, hLast.symm, hOwn⟩
  · rintro (⟨i, moment, value, status, hEvent, hOwn⟩ | ⟨moment, value, status, rfl, hOwn⟩)
    · refine ⟨i, moment, value, status, getElem?_snoc_iff.mpr (Or.inl hEvent), ?_⟩
      rw [take_snoc hEvent]
      exact hOwn
    · refine ⟨events.length, moment, value, status, getElem?_snoc_iff.mpr (Or.inr ⟨rfl, rfl⟩), ?_⟩
      rw [List.take_left]
      exact hOwn

/-- Handle and trace of an open transaction belong together. -/
structure Faithful (log : List Traced) (tx : Traced) : Prop where
  began : tx.began ≤ log.length
  snapshot : tx.handle.snapshot = (numbered (log.take tx.began)).length
  pending : ∀ key, tx.handle.pending[key]? = (changesOf tx.events).last key
  reads : ∀ key, key ∈ tx.handle.reads ↔ ReadThrough tx.events key
  failed : tx.handle.failed = true ↔ Overtaken log tx
  explained : ∀ i event, tx.events[i]? = some event →
    tx.began ≤ event.moment ∧ event.moment ≤ log.length ∧
      Explained (log.take event.moment) tx.began (tx.events.take i) event

namespace Faithful

variable {log : List Traced} {s : VersionedStore} {tx : Traced}

theorem start (hStore : Reflects log s) : Faithful log (.start s log.length) where
  began := Nat.le_refl _
  snapshot := by
    rw [Traced.start, List.take_length]
    exact hStore.version
  pending := by
    intro key
    simp [Traced.start, VersionedStore.start, changesOf]
  reads := by
    intro key
    simp [Traced.start, VersionedStore.start, ReadThrough]
  failed := by simp [Traced.start, VersionedStore.start, Overtaken]
  explained := by
    intro i event hEvent
    simp [Traced.start] at hEvent

/-- Commits of others change nothing about the calls that were made before. -/
theorem grow (h : Faithful log tx) (other : Traced) : Faithful (log ++ [other]) tx where
  began := by
    rw [List.length_append]
    exact Nat.le_add_right_of_le h.began
  snapshot := by
    rw [List.take_append_of_le_length h.began]
    exact h.snapshot
  pending := h.pending
  reads := h.reads
  failed := by
    -- A write looks only at the commits before it, and those are the same in the longer log.
    have hMoment : ∀ moment key value status, .write moment key value status ∈ tx.events →
        (log ++ [other]).take moment = log.take moment := by
      intro moment key value status hMem
      obtain ⟨i, hEvent⟩ := List.mem_iff_getElem?.mp hMem
      exact List.take_append_of_le_length (h.explained i _ hEvent).2.1
    rw [h.failed]
    constructor
    · rintro ⟨moment, key, value, status, hMem, hTouched⟩
      rw [← hMoment _ _ _ _ hMem] at hTouched
      exact ⟨moment, key, value, status, hMem, hTouched⟩
    · rintro ⟨moment, key, value, status, hMem, hTouched⟩
      rw [hMoment _ _ _ _ hMem] at hTouched
      exact ⟨moment, key, value, status, hMem, hTouched⟩
  explained := by
    intro i event hEvent
    obtain ⟨hBegan, hMoment, hExplained⟩ := h.explained i event hEvent
    refine ⟨hBegan, ?_, ?_⟩
    · rw [List.length_append]
      exact Nat.le_add_right_of_le hMoment
    · rw [List.take_append_of_le_length hMoment]
      exact hExplained

/-- One more call keeps handle and trace together, if the handle takes over what the call changed,
remembers it when it was a read of the store, and remembers a write that came too late. -/
theorem noted (h : Faithful log tx) {handle : OpenTransaction} {event : Event}
    (hMoment : event.moment = log.length)
    (hExplained : Explained log tx.began tx.events event)
    (hSnapshot : handle.snapshot = tx.handle.snapshot)
    (hPending : ∀ key, handle.pending[key]? = (changesOf (tx.events ++ [event])).last key)
    (hReads : ∀ key, key ∈ handle.reads ↔ key ∈ tx.handle.reads ∨
      ∃ moment value status, event = .read moment key value status ∧
        (changesOf tx.events).last key = none)
    (hFailed : handle.failed = true ↔ tx.handle.failed = true ∨
      ∃ moment key value status, event = .write moment key value status ∧
        touched (log.drop tx.began) key = true) :
    Faithful log (tx.noted handle event) where
  began := h.began
  snapshot := hSnapshot.trans h.snapshot
  pending := hPending
  reads := by
    intro key
    rw [Traced.noted, readThrough_snoc, ← h.reads]
    exact hReads key
  failed := by
    have hNow : log.take event.moment = log := by rw [hMoment, List.take_length]
    rw [Traced.noted, hFailed, h.failed]
    constructor
    · rintro (⟨moment, key, value, status, hMem, hTouched⟩ |
        ⟨moment, key, value, status, rfl, hTouched⟩)
      · exact ⟨moment, key, value, status, List.mem_append_left _ hMem, hTouched⟩
      · refine ⟨moment, key, value, status, by simp, ?_⟩
        rw [show log.take moment = log from hNow]
        exact hTouched
    · rintro ⟨moment, key, value, status, hMem, hTouched⟩
      rcases List.mem_append.mp hMem with hEarlier | hLast
      · exact Or.inl ⟨moment, key, value, status, hEarlier, hTouched⟩
      · rw [List.mem_singleton] at hLast
        subst hLast
        rw [show log.take moment = log from hNow] at hTouched
        exact Or.inr ⟨moment, key, value, status, rfl, hTouched⟩
  explained := by
    intro i found hFound
    rcases getElem?_snoc_iff.mp hFound with hEarlier | ⟨rfl, rfl⟩
    · rw [Traced.noted, take_snoc hEarlier]
      exact h.explained i found hEarlier
    · rw [Traced.noted, hMoment, List.take_length, List.take_left]
      exact ⟨h.began, Nat.le_refl _, hExplained⟩

theorem valueAt (h : Faithful log tx) (hStore : Reflects log s) (key : Bytes) :
    s.valueAt key tx.handle.snapshot = seen log tx.began key := by
  rw [h.snapshot]
  exact hStore.valueAt h.began key

theorem newerThan (h : Faithful log tx) (hStore : Reflects log s) (key : Bytes) :
    s.newerThan key tx.handle.snapshot = touched (log.drop tx.began) key := by
  rw [h.snapshot]
  exact hStore.newer tx.began h.began key

theorem read_answer (h : Faithful log tx) (hStore : Reflects log s) (key : Bytes) :
    (s.read tx.handle key).2 =
      (view log tx.began tx.events key,
        VersionedStore.found (view log tx.began tx.events key)) := by
  rw [VersionedStore.read, h.pending, view]
  cases (changesOf tx.events).last key with
  | none => simp [h.valueAt hStore]
  | some own => rfl

theorem write_answer (h : Faithful log tx) (hStore : Reflects log s) (key value : Bytes) :
    (s.write tx.handle key value).2 =
      if touched (log.drop tx.began) key then .valueNotFound else .ok := by
  rw [VersionedStore.write, h.newerThan hStore]
  split <;> rfl

theorem drop_answer (h : Faithful log tx) (hStore : Reflects log s) (key : Bytes) :
    (s.drop tx.handle key).2 = VersionedStore.found (view log tx.began tx.events key) := by
  rw [VersionedStore.drop, h.pending, view, h.valueAt hStore]
  cases (changesOf tx.events).last key with
  | none => cases seen log tx.began key <;> rfl
  | some own => cases own <;> rfl

theorem read (h : Faithful log tx) (hStore : Reflects log s) (key : Bytes) :
    Faithful log (tx.read s log.length key) := by
  have hChanges : ∀ value status,
      changesOf (tx.events ++ [.read log.length key value status]) = changesOf tx.events := by
    intro value status
    exact changesOf_snoc_none tx.events rfl
  cases hOwn : (changesOf tx.events).last key with
  | some own =>
      have hRead : s.read tx.handle key = (tx.handle, own, VersionedStore.found own) := by
        rw [VersionedStore.read, h.pending, hOwn]
      rw [Traced.read, hRead]
      refine h.noted rfl ⟨by rw [view, hOwn, Option.getD_some], rfl⟩ rfl ?_ ?_ ?_
      · intro other
        rw [hChanges]
        exact h.pending other
      · intro other
        simp only [Event.read.injEq]
        refine ⟨Or.inl, ?_⟩
        rintro (hMem | ⟨_, _, _, ⟨_, rfl, _⟩, hNone⟩)
        · exact hMem
        · rw [hOwn] at hNone
          cases hNone
      · simp
  | none =>
      have hRead : s.read tx.handle key =
          ({ tx.handle with reads := key :: tx.handle.reads }, seen log tx.began key,
            VersionedStore.found (seen log tx.began key)) := by
        rw [VersionedStore.read, h.pending, hOwn, h.valueAt hStore]
      rw [Traced.read, hRead]
      refine h.noted rfl ⟨by rw [view, hOwn, Option.getD_none], rfl⟩ rfl ?_ ?_ ?_
      · intro other
        rw [hChanges]
        exact h.pending other
      · intro other
        simp only [List.mem_cons, Event.read.injEq]
        constructor
        · rintro (rfl | hMem)
          · exact Or.inr ⟨_, _, _, ⟨rfl, rfl, rfl, rfl⟩, hOwn⟩
          · exact Or.inl hMem
        · rintro (hMem | ⟨_, _, _, ⟨_, rfl, _⟩, _⟩)
          · exact Or.inr hMem
          · exact Or.inl rfl
      · simp

theorem write (h : Faithful log tx) (hStore : Reflects log s) (key value : Bytes) :
    Faithful log (tx.write s log.length key value) := by
  cases hTouched : touched (log.drop tx.began) key with
  | true =>
      have hWrite : s.write tx.handle key value =
          ({ tx.handle with failed := true }, .valueNotFound) := by
        rw [VersionedStore.write, h.newerThan hStore, hTouched, if_pos rfl]
      rw [Traced.write, hWrite]
      refine h.noted rfl (by rw [Explained, hTouched, if_pos rfl]) rfl ?_ ?_ ?_
      · intro other
        rw [changesOf_snoc_none _ rfl]
        exact h.pending other
      · simp
      · exact iff_of_true rfl (Or.inr ⟨_, _, _, _, rfl, hTouched⟩)
  | false =>
      have hWrite : s.write tx.handle key value =
          ({ tx.handle with pending := tx.handle.pending.insert key (some value) }, .ok) := by
        rw [VersionedStore.write, h.newerThan hStore, hTouched, if_neg Bool.false_ne_true]
      rw [Traced.write, hWrite]
      refine h.noted rfl (by rw [Explained, hTouched, if_neg Bool.false_ne_true]) rfl ?_ ?_ ?_
      · intro other
        rw [changesOf_snoc_some _ rfl, Changes.last_snoc, getElem?_insert_eq, h.pending]
      · simp
      · simp only [Event.write.injEq]
        refine ⟨Or.inl, ?_⟩
        rintro (hFailed | ⟨_, _, _, _, ⟨_, rfl, _⟩, hNewer⟩)
        · exact hFailed
        · rw [hTouched] at hNewer
          cases hNewer

theorem drop (h : Faithful log tx) (hStore : Reflects log s) (key : Bytes) :
    Faithful log (tx.drop s log.length key) := by
  have hAnswer := h.drop_answer hStore key
  rcases s.drop_cases tx.handle key with hDrop | hDrop
  · rw [hDrop] at hAnswer
    rw [Traced.drop, hDrop]
    refine h.noted rfl hAnswer rfl ?_ ?_ ?_
    · intro other
      rw [changesOf_snoc_some _ rfl, Changes.last_snoc, getElem?_insert_eq, h.pending]
    · simp
    · simp
  · rw [hDrop] at hAnswer
    rw [Traced.drop, hDrop]
    refine h.noted rfl hAnswer rfl ?_ ?_ ?_
    · intro other
      rw [changesOf_snoc_none _ rfl]
      exact h.pending other
    · simp
    · simp

theorem loading (hStore : Reflects log s) (samples : SampleSet) :
    Faithful log (.loading s log.length samples) := by
  have general (pairs : List Pair) (tx : Traced) (h : Faithful log tx) :
      Faithful log (pairs.foldl (fun tx pair => tx.write s log.length pair.key pair.value) tx) := by
    induction pairs generalizing tx with
    | nil => exact h
    | cons pair rest ih => exact ih _ (h.write hStore pair.key pair.value)
  exact general samples.toList _ (.start hStore)

theorem again (h : Faithful log tx) (hStore : Reflects log s) (call : Event) :
    Faithful log (tx.again s log.length call) := by
  cases call with
  | read moment key value status => exact h.read hStore key
  | write moment key value status => exact h.write hStore key value
  | drop moment key status => exact h.drop hStore key

theorem alone (hStore : Reflects log s) (calls : List Event) :
    Faithful log (.alone s log.length calls) := by
  induction calls using List.reverseRecOn with
  | nil => exact .start hStore
  | append_singleton calls call ih =>
      rw [Traced.alone_snoc]
      exact ih.again hStore call

theorem newerThan_pending_iff (h : Faithful log tx) (hStore : Reflects log s) :
    (tx.handle.pending.toList.any fun change => s.newerThan change.1 tx.handle.snapshot) = true ↔
      ∃ key ∈ tx.handle.pending, touched (log.drop tx.began) key = true := by
  rw [List.any_eq_true]
  constructor
  · rintro ⟨⟨key, value⟩, hMem, hNewer⟩
    rw [Std.TreeMap.mem_toList_iff_getElem?_eq_some] at hMem
    refine ⟨key, Std.TreeMap.mem_iff_isSome_getElem?.mpr (by rw [hMem]; rfl), ?_⟩
    rwa [← h.newerThan hStore]
  · rintro ⟨key, hMem, hTouched⟩
    obtain ⟨value, hValue⟩ :=
      Option.isSome_iff_exists.mp (Std.TreeMap.mem_iff_isSome_getElem?.mp hMem)
    refine ⟨(key, value), Std.TreeMap.mem_toList_iff_getElem?_eq_some.mpr hValue, ?_⟩
    rwa [h.newerThan hStore]

theorem newerThan_reads_iff (h : Faithful log tx) (hStore : Reflects log s) :
    (tx.handle.reads.any fun key => s.newerThan key tx.handle.snapshot) = true ↔
      ∃ key, ReadThrough tx.events key ∧ touched (log.drop tx.began) key = true := by
  rw [List.any_eq_true]
  constructor
  · rintro ⟨key, hMem, hNewer⟩
    refine ⟨key, (h.reads key).mp hMem, ?_⟩
    rwa [← h.newerThan hStore]
  · rintro ⟨key, hRead, hTouched⟩
    refine ⟨key, (h.reads key).mpr hRead, ?_⟩
    rwa [h.newerThan hStore]

open Classical in
/-- The commit is decided by what the transactions that committed since the begin have touched. -/
theorem verdict_eq (h : Faithful log tx) (hStore : Reflects log s) :
    s.verdict tx.handle =
      if Overtaken log tx then .invalidTx
      else if ∃ key ∈ tx.handle.pending, touched (log.drop tx.began) key = true then .wwConflict
      else if ∃ key, ReadThrough tx.events key ∧ touched (log.drop tx.began) key = true then
        .rwConflict
      else .ok := by
  rw [VersionedStore.verdict]
  simp only [h.failed, h.newerThan_pending_iff hStore, h.newerThan_reads_iff hStore]

end Faithful

/-- A transaction whose commit was answered OK when this was the log. Nothing that it read in the
store or changed had been touched since it began. -/
structure Settled (log : List Traced) (tx : Traced) : Prop where
  faithful : Faithful log tx
  inTime : ¬ Overtaken log tx
  changed : ∀ key ∈ tx.handle.pending, touched (log.drop tx.began) key = false
  read : ∀ key, ReadThrough tx.events key → touched (log.drop tx.began) key = false

theorem Faithful.settled {log : List Traced} {s : VersionedStore} {tx : Traced}
    (h : Faithful log tx) (hStore : Reflects log s) (hOk : s.verdict tx.handle = .ok) :
    Settled log tx := by
  classical
  rw [h.verdict_eq hStore] at hOk
  split at hOk
  · cases hOk
  · rename_i hInTime
    split at hOk
    · cases hOk
    · rename_i hChanged
      split at hOk
      · cases hOk
      · rename_i hRead
        refine ⟨h, hInTime, ?_, ?_⟩
        · intro key hKey
          exact Bool.eq_false_iff.mpr fun hTouched => hChanged ⟨key, hKey, hTouched⟩
        · intro key hKey
          exact Bool.eq_false_iff.mpr fun hTouched => hRead ⟨key, hKey, hTouched⟩

end StoreBench
