import StoreBench.Proofs.Run.Spread

/-! How evenly a partition cuts. Its ranges cover all positions, each of them once, and no worker
gets more than one transaction above another. A partition that is refused asked for no worker, for
more workers than there are transactions, or for a list of ranges that no memory has room for. -/
namespace StoreBench

/-- Positions that a range holds. -/
def Range.size (range : Range) : Nat := range.stop - range.start

theorem Range.map_size_consecutive (start : Nat) (sizes : List Nat) :
    (consecutive start sizes).map size = sizes := by
  induction sizes generalizing start with
  | nil => rfl
  | cons size more ih =>
      rw [consecutive, List.map_cons, ih, Range.size]
      simp

theorem mem_shareSizes {len threads size : Nat} (h : size ∈ shareSizes len threads) :
    len / threads ≤ size ∧ size ≤ len / threads + 1 := by
  obtain ⟨worker, _, rfl⟩ := List.mem_map.mp h
  split <;> omega

/-- The larger shares come first. -/
theorem shareSizes_pairwise (len threads : Nat) :
    (shareSizes len threads).Pairwise fun size later => later ≤ size ∧ size ≤ later + 1 := by
  rw [shareSizes, List.pairwise_map]
  apply List.pairwise_lt_range.imp
  intro worker later hLess
  split_ifs <;> omega

/-- Every position up to `len` in one of `threads` ranges, and about as many in each of them. With
`share` for the quotient and `left` for the remainder, range `i` goes from `i * share + min i left`
up to, and not including, `(i + 1) * share + min (i + 1) left`. No sum on the way goes beyond
`len`. -/
structure Balanced (len threads : Nat) (ranges : List Range) : Prop where
  length : ranges.length = threads
  bounds : ∀ worker < threads, ranges[worker]? = some
    ⟨worker * (len / threads) + min worker (len % threads),
      (worker + 1) * (len / threads) + min (worker + 1) (len % threads)⟩
  covers : ∀ position < len, ∃! worker, Range.Hold ranges worker position
  touching : ∀ (worker : Nat) (range next : Range), ranges[worker]? = some range →
    ranges[worker + 1]? = some next → range.stop = next.start
  nonempty : ∀ range ∈ ranges, range.start < range.stop
  sizes : ranges.Pairwise fun range later => later.size ≤ range.size ∧ range.size ≤ later.size + 1
  shares_le : ∀ size ∈ shareSizes len threads, size ≤ len
  stop_le : ∀ range ∈ ranges, range.stop ≤ len

section Shares

variable {len threads : Nat}

theorem share_bounds {worker : Nat} (h : worker < threads) :
    (Range.consecutive 0 (shareSizes len threads))[worker]? = some
      ⟨worker * (len / threads) + min worker (len % threads),
        (worker + 1) * (len / threads) + min (worker + 1) (len % threads)⟩ := by
  have hPlace : worker < (shareSizes len threads).length := by rwa [length_shareSizes]
  rw [Range.getElem?_consecutive 0 hPlace, upTo_shareSizes len (Nat.le_of_lt h),
    upTo_shareSizes len h, Nat.zero_add, Nat.zero_add]

theorem shares_cover (hSome : 1 ≤ threads) {position : Nat} (h : position < len) :
    ∃! worker, Range.Hold (Range.consecutive 0 (shareSizes len threads)) worker position := by
  simp only [Range.hold_consecutive_iff]
  rw [← sum_shareSizes len (Nat.ne_of_gt hSome)] at h
  obtain ⟨worker, hSpans⟩ := exists_spans h
  exact ⟨worker, hSpans, fun _ hOther => hOther.unique hSpans⟩

/-- Where the range of a worker starts and stops. -/
theorem share_eq {worker : Nat} {range : Range}
    (h : (Range.consecutive 0 (shareSizes len threads))[worker]? = some range) :
    range.start = upTo (shareSizes len threads) worker ∧
      range.stop = upTo (shareSizes len threads) (worker + 1) := by
  obtain ⟨hLess, _⟩ := List.getElem?_eq_some_iff.mp h
  rw [Range.length_consecutive] at hLess
  rw [Range.getElem?_consecutive 0 hLess, Nat.zero_add, Nat.zero_add] at h
  cases h
  exact ⟨rfl, rfl⟩

/-- What the workers get is a balanced cover. -/
theorem shares_balanced (hSome : 1 ≤ threads) (hEnough : threads ≤ len) :
    Balanced len threads (Range.consecutive 0 (shareSizes len threads)) := by
  have hSizes := Range.map_size_consecutive 0 (shareSizes len threads)
  have hStop : ∀ range ∈ Range.consecutive 0 (shareSizes len threads), range.stop ≤ len := by
    intro range hRange
    obtain ⟨worker, hWorker⟩ := List.mem_iff_getElem?.mp hRange
    rw [(share_eq hWorker).2]
    exact (upTo_le_sum _ _).trans_eq (sum_shareSizes len (Nat.ne_of_gt hSome))
  constructor
  case length => rw [Range.length_consecutive, length_shareSizes]
  case bounds => exact fun worker h => share_bounds h
  case covers => exact fun position h => shares_cover hSome h
  case touching =>
    intro worker range next hRange hNext
    rw [(share_eq hRange).2, (share_eq hNext).1]
  case nonempty =>
    intro range hRange
    have hSize : range.size ∈ shareSizes len threads := hSizes ▸ List.mem_map_of_mem hRange
    have hShare : 1 ≤ len / threads := (Nat.one_le_div_iff hSome).mpr hEnough
    have hMany := (mem_shareSizes hSize).1
    rw [Range.size] at hMany
    omega
  case sizes =>
    have hPairs := shareSizes_pairwise len threads
    rwa [← hSizes, List.pairwise_map] at hPairs
  case shares_le =>
    intro size hSize
    rw [← hSizes] at hSize
    obtain ⟨range, hRange, rfl⟩ := List.mem_map.mp hSize
    exact Nat.le_trans (Nat.sub_le range.stop range.start) (hStop range hRange)
  case stop_le => exact hStop

end Shares

/-- A partition refuses to have no worker and to have more workers than there are transactions, and
it fails where the list of its ranges, sixteen bytes each, would be larger than any list may be. In
all other cases it is a balanced cover. -/
theorem partition_balanced (len threads : Nat) :
    (partition len threads = .error (.error .zeroThreads) ↔ threads = 0) ∧
      (partition len threads = .error (.error (.tooManyThreads threads len)) ↔ len < threads) ∧
      (partition len threads = .error (.fault .capacity) ↔ 2 ^ 59 ≤ threads ∧ threads ≤ len) ∧
      (1 ≤ threads → threads ≤ len → threads < 2 ^ 59 →
        ∃ ranges, partition len threads = .ok ranges ∧ Balanced len threads ranges) := by
  have hRoom : threads * Range.width ≤ memoryMax ↔ threads < 2 ^ 59 := by
    rw [Range.width, memoryMax]
    omega
  rw [partition_eq]
  split_ifs with hNone hMany hFits
  · simp [hNone]
  · have hBeyond : ¬ threads ≤ len := Nat.not_le_of_lt hMany
    refine ⟨by simp [hNone], by simp [hMany], ?_, ?_⟩
    · exact iff_of_false (by simp) fun h => hBeyond h.2
    · intro _ hEnough _
      exact absurd hEnough hBeyond
  · rw [hRoom] at hFits
    refine ⟨by simp [hNone], by simp [hMany], ?_, ?_⟩
    · exact iff_of_false (by simp) fun h => Nat.not_le_of_lt hFits h.1
    · intro hSome hEnough _
      exact ⟨_, rfl, shares_balanced hSome hEnough⟩
  · rw [hRoom] at hFits
    refine ⟨by simp [hNone], by simp [hMany], ?_, ?_⟩
    · exact iff_of_true rfl ⟨Nat.le_of_not_lt hFits, Nat.le_of_not_lt hMany⟩
    · intro _ _ hLess
      exact absurd hLess hFits

/-- Seven workers share all positions that there are words for. -/
theorem partition_balanced_all_words :
    ∃ ranges, partition wordMax 7 = .ok ranges ∧ Balanced wordMax 7 ranges :=
  (partition_balanced wordMax 7).2.2.2 (by decide) (by decide) (by decide)

/-- As many workers as transactions are refused if there are so many of them that no list can hold
their ranges. -/
theorem partition_beyond_memory :
    ¬ ∀ len ≤ wordMax, ∀ threads ≤ wordMax, threads ≠ 0 → threads ≤ len →
      ∃ ranges, partition len threads = .ok ranges := by
  intro h
  have hRefused : partition (2 ^ 59) (2 ^ 59) = .error (.fault .capacity) := by
    rw [partition_eq]
    decide
  obtain ⟨ranges, hRanges⟩ :=
    h (2 ^ 59) (by decide) (2 ^ 59) (by decide) (by decide) (Nat.le_refl _)
  rw [hRefused] at hRanges
  cases hRanges

end StoreBench
