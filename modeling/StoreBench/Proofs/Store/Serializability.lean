import StoreBench.Proofs.Store.History

/-! Transactions that commit might as well have run one after the other, each at its commit. What
they read in the store and what they changed was untouched since they began, so it makes no
difference that the store answered from an older state. A drop that misses its key is the one
exception: the commit does not look at it again. -/
namespace StoreBench

/-- A change made by an early call is still among the changes at the end. -/
theorem changed_of_take {events : List Event} {i : Nat} {key : Bytes}
    (hChanged : ((changesOf (events.take i)).last key).isSome = true) :
    ((changesOf events).last key).isSome = true := by
  rw [Changes.last_isSome_iff] at hChanged ⊢
  obtain ⟨change, hMem, hKey⟩ := hChanged
  exact ⟨change, ((List.take_sublist i events).filterMap _).subset hMem, hKey⟩

theorem untouched_take {log : List Traced} {began : Nat} {key : Bytes} (moment : Nat)
    (hUntouched : touched (log.drop began) key = false) :
    touched ((log.take moment).drop began) key = false := by
  rw [Bool.eq_false_iff] at hUntouched ⊢
  intro hTouched
  exact hUntouched (touched_of_subset ((List.take_sublist moment log).drop began).subset hTouched)

/-- At a key that stays untouched a transaction sees what it would see if it began last of all. -/
theorem view_untouched {log : List Traced} {began : Nat} {key : Bytes} (prior : List Event)
    (hUntouched : touched (log.drop began) key = false) :
    view log began prior key = (changesOf prior).on (contentsAfter log) key := by
  rw [view, seen_eq began hUntouched, Changes.on_apply]

theorem view_take {log : List Traced} {began moment : Nat} {key : Bytes} (prior : List Event)
    (hBegan : began ≤ moment) (hUntouched : touched (log.drop began) key = false) :
    view (log.take moment) began prior key = view log began prior key := by
  rw [view, view, seen, seen, untouched_take moment hUntouched, hUntouched, List.take_take,
    Nat.min_eq_left hBegan]

/-- A drop that tells the truth leaves no value, whether it found one or not. -/
theorem on_drop (prior : List Event) (contents : Contents) (moment : Nat) (key : Bytes)
    {status : Status}
    (hStatus : status = VersionedStore.found ((changesOf prior).on contents key)) :
    (changesOf (prior ++ [.drop moment key status])).on contents key = none := by
  cases hFound : (changesOf prior).on contents key with
  | none =>
      rw [hFound] at hStatus
      rw [changesOf_snoc_none _ (by rw [hStatus]; rfl), hFound]
  | some value =>
      rw [hFound] at hStatus
      rw [changesOf_snoc_some _ (by rw [hStatus]; rfl), Changes.on_snoc, Function.update_self]

namespace Settled

variable {log : List Traced} {tx : Traced} (h : Settled log tx)
include h

/-- What the transaction changed at any time is what it had pending when it committed. -/
theorem untouched_of_changed {i : Nat} {key : Bytes}
    (hChanged : ((changesOf (tx.events.take i)).last key).isSome = true) :
    touched (log.drop tx.began) key = false := by
  apply h.changed
  rw [Std.TreeMap.mem_iff_isSome_getElem?, h.faithful.pending]
  exact changed_of_take hChanged

theorem untouched_of_read {i moment : Nat} {key : Bytes} {value : Option Bytes} {status : Status}
    (hEvent : tx.events[i]? = some (.read moment key value status)) :
    touched (log.drop tx.began) key = false := by
  cases hOwn : (changesOf (tx.events.take i)).last key with
  | none => exact h.read key ⟨i, moment, value, status, hEvent, hOwn⟩
  | some own => exact h.untouched_of_changed (i := i) (by rw [hOwn]; rfl)

theorem read_answer {i moment : Nat} {key : Bytes} {value : Option Bytes} {status : Status}
    (hEvent : tx.events[i]? = some (.read moment key value status)) :
    value = (changesOf (tx.events.take i)).on (contentsAfter log) key ∧
      status = VersionedStore.found value := by
  obtain ⟨hBegan, _, hValue, hStatus⟩ := h.faithful.explained i _ hEvent
  have hUntouched := h.untouched_of_read hEvent
  rw [view_take _ hBegan hUntouched, view_untouched _ hUntouched] at hValue
  exact ⟨hValue, hStatus⟩

/-- A drop was answered OK exactly if it found the key, and it finds no key that others touched. -/
theorem drop_answer {i moment : Nat} {key : Bytes} {status : Status}
    (hEvent : tx.events[i]? = some (.drop moment key status)) :
    status = .ok ↔
      (changesOf (tx.events.take i)).on (contentsAfter log) key ≠ none ∧
        touched (log.drop tx.began) key = false := by
  obtain ⟨hBegan, _, hStatus⟩ := h.faithful.explained i _ hEvent
  cases hTouched : touched (log.drop tx.began) key with
  | false =>
      rw [hStatus, VersionedStore.found_eq_ok_iff, view_take _ hBegan hTouched,
        view_untouched _ hTouched, and_iff_left rfl]
  | true =>
      -- A drop that found the key would be pending, and the commit would have been refused.
      refine iff_of_false ?_ (fun hFound => Bool.noConfusion hFound.2)
      rintro rfl
      have hChanged : ((changesOf (tx.events.take (i + 1))).last key).isSome = true := by
        rw [take_succ_of_found hEvent, changesOf_snoc_some _ rfl, Changes.last_snoc, if_pos rfl]
        rfl
      rw [h.untouched_of_changed hChanged] at hTouched
      cases hTouched

/-- One more call, made by `tx` and again by `lone`, which nobody interrupts. At an untouched key
both are answered from the same contents. -/
theorem again_eq {s : VersionedStore} (hStore : Reflects log s) {lone : Traced}
    (hLone : Faithful log lone) (hLast : lone.began = log.length) {i : Nat} {call : Event}
    {key : Bytes} (hCall : tx.events[i]? = some call) (hKey : call.key = key)
    (hUntouched : touched (log.drop tx.began) key = false)
    (hSame : (changesOf lone.events).on (contentsAfter log) key =
      (changesOf (tx.events.take i)).on (contentsAfter log) key) :
    (changesOf (lone.again s log.length call).events).on (contentsAfter log) key =
      (changesOf (tx.events.take i ++ [call])).on (contentsAfter log) key := by
  obtain ⟨hBegan, _, hExplained⟩ := h.faithful.explained i call hCall
  have hNewest : touched (log.drop lone.began) key = false := by
    rw [hLast, List.drop_length, touched_nil]
  cases call with
  | read moment other value status =>
      have hEvents : (lone.again s log.length (.read moment other value status)).events =
          lone.events ++ [.read log.length other _ _] := rfl
      rw [hEvents, changesOf_snoc_none _ rfl, changesOf_snoc_none _ rfl]
      exact hSame
  | write moment other value status =>
      obtain rfl : other = key := hKey
      have hEvents : (lone.again s log.length (.write moment other value status)).events =
          lone.events ++ [.write log.length other value (s.write lone.handle other value).2] := rfl
      have hStatus : status = .ok := by
        rw [hExplained, untouched_take _ hUntouched]
        rfl
      have hAnswer : (s.write lone.handle other value).2 = .ok := by
        rw [hLone.write_answer hStore, hNewest]
        rfl
      rw [hEvents, hAnswer, hStatus, changesOf_snoc_some _ rfl, changesOf_snoc_some _ rfl,
        Changes.on_snoc, Changes.on_snoc, Function.update_self, Function.update_self]
  | drop moment other status =>
      obtain rfl : other = key := hKey
      have hStatus : status = VersionedStore.found _ := hExplained
      rw [view_take _ hBegan hUntouched, view_untouched _ hUntouched] at hStatus
      have hAnswer := hLone.drop_answer hStore other
      rw [view_untouched _ hNewest] at hAnswer
      exact (on_drop _ _ _ _ hAnswer).trans (on_drop _ _ _ _ hStatus).symm

/-- At an untouched key the calls of a transaction come to the same when nobody interrupts it. -/
theorem alone_eq {s : VersionedStore} (hStore : Reflects log s) {key : Bytes}
    (hUntouched : touched (log.drop tx.began) key = false) (i : Nat) :
    (changesOf (Traced.alone s log.length (tx.events.take i)).events).on (contentsAfter log) key =
      (changesOf (tx.events.take i)).on (contentsAfter log) key := by
  induction i with
  | zero => rfl
  | succ i ih =>
      cases hCall : tx.events[i]? with
      | none =>
          have hEnd := List.getElem?_eq_none_iff.mp hCall
          rw [List.take_of_length_le hEnd] at ih
          rw [List.take_of_length_le (Nat.le_succ_of_le hEnd)]
          exact ih
      | some call =>
          rw [take_succ_of_found hCall, Traced.alone_snoc]
          by_cases hKey : key = call.key
          · exact h.again_eq hStore (.alone hStore _) (Traced.alone_began s _ _) hCall hKey.symm
              hUntouched ih
          · obtain ⟨answered, hEvents, hSameKey⟩ := Traced.again_events s log.length
              (Traced.alone s log.length (tx.events.take i)) call
            rw [hEvents, changesOf_snoc_other _ call _ hKey,
              changesOf_snoc_other _ answered _ (by rwa [hSameKey])]
            exact ih

/-- A read is answered as it would have been without interruption. -/
theorem read_alone {s : VersionedStore} (hStore : Reflects log s) {i moment : Nat} {key : Bytes}
    {value : Option Bytes} {status : Status}
    (hEvent : tx.events[i]? = some (.read moment key value status)) :
    (s.read (Traced.alone s log.length (tx.events.take i)).handle key).2 = (value, status) := by
  have hLone : Faithful log (.alone s log.length (tx.events.take i)) := .alone hStore _
  have hNewest : touched (log.drop (Traced.alone s log.length (tx.events.take i)).began) key =
      false := by
    rw [Traced.alone_began, List.drop_length, touched_nil]
  obtain ⟨hValue, hStatus⟩ := h.read_answer hEvent
  rw [hLone.read_answer hStore, view_untouched _ hNewest,
    h.alone_eq hStore (h.untouched_of_read hEvent), ← hValue, ← hStatus]

end Settled

namespace History

/-- Every run is equivalent to one that executes the committed transactions one after the other, in
the order of their commits. The store holds what they had pending, and nothing else. What one of
them read is what was there right before its commit, with its own successful changes on top; the
store as it was then answers the same when nobody interrupts the transaction. -/
theorem commit_order_serializable (actions : List Action) :
    let h := after actions
    (∀ key, h.session.store.contents key = contentsAfter h.committed key) ∧
    ∀ (n : Nat) (tx : Traced), h.committed[n]? = some tx →
      let before := h.committed.take n
      let s := storeAfter before
      (∀ key, tx.handle.pending[key]? = (changesOf tx.events).last key) ∧
      (∀ key, s.contents key = contentsAfter before key) ∧
      ∀ (i moment : Nat) (key : Bytes) (value : Option Bytes) (status : Status),
        tx.events[i]? = some (.read moment key value status) →
        let prior := tx.events.take i
        let overlaid := (changesOf prior).on (contentsAfter before) key
        let alone := (Traced.alone s before.length prior).handle
        (value = overlaid ∧ status = VersionedStore.found overlaid) ∧
          (s.read alone key).2 = (value, status) := by
  intro h
  have hSound := sound_after actions
  refine ⟨fun key => by rw [hSound.store.contents], ?_⟩
  intro n tx hTx before s
  have hSettled : Settled before tx := hSound.committed n tx hTx
  have hStore : Reflects before s := .storeAfter before
  refine ⟨hSettled.faithful.pending, fun key => by rw [hStore.contents], ?_⟩
  intro i moment key value status hEvent prior overlaid alone
  obtain ⟨hValue, hStatus⟩ := hSettled.read_answer hEvent
  refine ⟨⟨hValue, ?_⟩, hSettled.read_alone hStore hEvent⟩
  rw [hStatus, hValue]

/-- A reader that commits last is serialized last, after a writer that began later. -/
theorem commit_order_serializable_reader :
    let run : List Action := [.start "first", .write "first" [1] [10], .commit "first",
      .start "reader", .read "reader" [1], .start "other", .write "other" [2] [20],
      .commit "other", .commit "reader"]
    let tx : Traced :=
      { began := 1, events := [.read 1 [1] (some [10]) .ok],
        handle := { snapshot := 1, reads := [[1]] } }
    (after run).committed[2]? = some tx ∧
      some [10] = contentsAfter ((after run).committed.take 2) [1] := by
  intro run tx
  have hTx : (after run).committed[2]? = some tx := rfl
  have hRead := ((commit_order_serializable run).2 2 tx hTx).2.2 0 1 [1] (some [10]) .ok rfl
  exact ⟨hTx, hRead.1.1⟩

/-- A drop in a committed transaction finds the key exactly if it was there right before the commit
and no transaction that committed since the begin had touched it. So it tells the truth about the
serial order, except that it misses a key which others have put there in the meantime. -/
theorem drop_truthful_iff (actions : List Action) :
    let h := after actions
    ∀ (n : Nat) (tx : Traced), h.committed[n]? = some tx →
      ∀ (i moment : Nat) (key : Bytes) (status : Status),
        tx.events[i]? = some (.drop moment key status) →
        let before := h.committed.take n
        let live := (changesOf (tx.events.take i)).on (contentsAfter before) key ≠ none
        let meanwhile := touched (before.drop tx.began) key = true
        (status = .ok ↔ live ∧ ¬ meanwhile) ∧ ((status = .ok ↔ live) ↔ ¬ (live ∧ meanwhile)) := by
  intro h n tx hTx i moment key status hEvent before live meanwhile
  have hAnswer : status = .ok ↔ live ∧ ¬ meanwhile := by
    rw [((sound_after actions).committed n tx hTx).drop_answer hEvent, ← Bool.not_eq_true]
  refine ⟨hAnswer, ?_⟩
  rw [hAnswer]
  tauto

/-- A drop of a key that nobody else touches is answered truthfully. -/
theorem drop_truthful_untouched :
    let run : List Action := [.start "first", .write "first" [1] [10], .commit "first",
      .start "dropper", .drop "dropper" [1], .start "other", .write "other" [2] [20],
      .commit "other", .commit "dropper"]
    let tx : Traced :=
      { began := 1, events := [.drop 1 [1] .ok],
        handle := { snapshot := 1, pending := (∅ : Std.TreeMap Bytes (Option Bytes)).insert [1] none } }
    (after run).committed[2]? = some tx ∧
      (Status.ok = .ok ↔ contentsAfter ((after run).committed.take 2) [1] ≠ none) := by
  intro run tx
  have hTx : (after run).committed[2]? = some tx := rfl
  have hDrop := drop_truthful_iff run 2 tx hTx 0 1 [1] .ok rfl
  exact ⟨hTx, hDrop.2.mpr fun hMissed => Bool.noConfusion hMissed.2⟩

/-- A drop is not looked at again when its transaction commits. Here it misses a key that is put
there before the commit, so the serial order would have dropped it. -/
theorem drop_misled :
    let h := after [.start "dropper", .drop "dropper" [1], .start "other", .write "other" [1] [10],
      .commit "other", .commit "dropper"]
    ¬ ∀ (n : Nat) (tx : Traced), h.committed[n]? = some tx →
      ∀ (i moment : Nat) (key : Bytes) (status : Status),
        tx.events[i]? = some (.drop moment key status) →
        (status = .ok ↔
          (changesOf (tx.events.take i)).on (contentsAfter (h.committed.take n)) key ≠ none) := by
  intro h hTruthful
  have hMissed : h.committed[1]? = some
      { began := 0, events := [.drop 0 [1] .valueNotFound], handle := { snapshot := 0 } } := rfl
  have hLive : contentsAfter (h.committed.take 1) [1] ≠ none := by decide
  have hOk := (hTruthful 1 _ hMissed 0 0 [1] .valueNotFound rfl).mpr hLive
  cases hOk

end History

end StoreBench
