import S3Archive.ControlLambda.WindowedReader

/-!
# control-lambda: window lookups on any set of ranges

`getPositionCover` and `getRangeCover` look at the two neighbours of the query in
the order by start and stop. What they return is right (`neighbour_some`), but a
range that covers the query is found only when it is not hidden
(`isSome_getRangeCover`): a shorter range that starts between the two and ends
before the query stands in front of it.
-/

namespace S3Archive.ControlLambda

namespace WindowRange

theorem lt_iff {r q : WindowRange} :
    r < q ↔ r.start < q.start ∨ r.start = q.start ∧ r.stop < q.stop :=
  Prod.Lex.toLex_lt_toLex

theorem le_iff {r q : WindowRange} :
    r ≤ q ↔ r.start < q.start ∨ r.start = q.start ∧ r.stop ≤ q.stop :=
  Prod.Lex.toLex_le_toLex

theorem covers_iff {r q : WindowRange} :
    r.covers q = true ↔ r.start ≤ q.start ∧ q.stop ≤ r.stop := by
  unfold covers
  rw [Bool.and_eq_true, decide_eq_true_eq, decide_eq_true_eq]

/-- A position is the range of its byte. -/
theorem contains_eq_covers (r : WindowRange) (position : Nat) :
    r.contains position = r.covers ⟨position, position + 1⟩ := rfl

end WindowRange

namespace WindowRangeSet

open WindowRange

variable {s : WindowRangeSet} {q x : WindowRange}

/-! ## The neighbours -/

/-- The last range below the query. -/
theorem nextBack_eq_some_iff :
    nextBack s q = some x ↔ (x ∈ s ∧ x < q) ∧ ∀ y ∈ s, y < q → y ≤ x := by
  have hmem : ∀ y, y ∈ s.filter (· < q) ↔ y ∈ s ∧ y < q := fun y => Finset.mem_filter
  unfold nextBack
  split
  · next h =>
    rw [Option.some_inj, Finset.max'_eq_iff, hmem]
    simp only [hmem, and_imp]
  · next h =>
    refine iff_of_false (fun hx => by cases hx) ?_
    rintro ⟨hx, -⟩
    exact h ⟨x, (hmem x).2 hx⟩

/-- The first range that is not below the query. -/
theorem next_eq_some_iff :
    next s q = some x ↔ (x ∈ s ∧ q ≤ x) ∧ ∀ y ∈ s, q ≤ y → x ≤ y := by
  have hmem : ∀ y, y ∈ s.filter (q ≤ ·) ↔ y ∈ s ∧ q ≤ y := fun y => Finset.mem_filter
  unfold next
  split
  · next h =>
    rw [Option.some_inj, Finset.min'_eq_iff, hmem]
    simp only [hmem, and_imp]
  · next h =>
    refine iff_of_false (fun hx => by cases hx) ?_
    rintro ⟨hx, -⟩
    exact h ⟨x, (hmem x).2 hx⟩

theorem exists_nextBack {y : WindowRange} (hy : y ∈ s) (hlt : y < q) :
    ∃ x, nextBack s q = some x := by
  unfold nextBack
  rw [dif_pos ⟨y, Finset.mem_filter.2 ⟨hy, hlt⟩⟩]
  exact ⟨_, rfl⟩

theorem exists_next {y : WindowRange} (hy : y ∈ s) (hle : q ≤ y) : ∃ x, next s q = some x := by
  unfold next
  rw [dif_pos ⟨y, Finset.mem_filter.2 ⟨hy, hle⟩⟩]
  exact ⟨_, rfl⟩

theorem neighbour_eq_some {p : WindowRange → Bool} (h : neighbour s q p = some x) :
    (nextBack s q = some x ∨ next s q = some x) ∧ p x = true := by
  unfold neighbour at h
  rcases Option.or_eq_some_iff.1 h with h | ⟨-, h⟩
  · obtain ⟨hx, hp⟩ := Option.filter_eq_some_iff.1 h
    exact ⟨.inl hx, hp⟩
  · obtain ⟨hx, hp⟩ := Option.filter_eq_some_iff.1 h
    exact ⟨.inr hx, hp⟩

theorem isSome_neighbour_of {p : WindowRange → Bool}
    (h : nextBack s q = some x ∨ next s q = some x) (hp : p x = true) :
    (neighbour s q p).isSome = true := by
  unfold neighbour
  rw [Option.isSome_or, Bool.or_eq_true]
  rcases h with h | h
  · exact .inl (by rw [h, Option.filter_some_pos hp]; rfl)
  · exact .inr (by rw [h, Option.filter_some_pos hp]; rfl)

/-- What a lookup returns is in the set and passes the check. -/
theorem neighbour_some {p : WindowRange → Bool} (h : neighbour s q p = some x) :
    x ∈ s ∧ p x = true := by
  obtain ⟨hx, hp⟩ := neighbour_eq_some h
  rcases hx with hx | hx
  · exact ⟨(nextBack_eq_some_iff.1 hx).1.1, hp⟩
  · exact ⟨(next_eq_some_iff.1 hx).1.1, hp⟩

/-! ## Hidden ranges -/

/-- `x` starts before the query, and a range that starts after `x`, but not after the query,
ends before the query does. -/
def Hidden (s : WindowRangeSet) (q x : WindowRange) : Prop :=
  ∃ y ∈ s, x.start < y.start ∧ y.start ≤ q.start ∧ y.stop < q.stop

/-- The last range below the query, or the first one not below it, is not hidden when it covers
the query. -/
theorem not_hidden_of_neighbour (h : nextBack s q = some x ∨ next s q = some x)
    (hcov : x.covers q = true) : ¬ Hidden s q x := by
  rw [covers_iff] at hcov
  rintro ⟨y, hy, hxy, hyq, hstop⟩
  rcases h with h | h
  · obtain ⟨-, hmax⟩ := nextBack_eq_some_iff.1 h
    have hlt : y < q := by
      rw [lt_iff]
      omega
    have hle := hmax y hy hlt
    rw [le_iff] at hle
    omega
  · obtain ⟨⟨-, hle⟩, -⟩ := next_eq_some_iff.1 h
    rw [le_iff] at hle
    omega

/-- A range that covers the query and is not hidden makes one of the neighbours cover it. -/
theorem exists_neighbour_of_not_hidden (hx : x ∈ s) (hcov : x.covers q = true)
    (hno : ¬ Hidden s q x) :
    ∃ y, (nextBack s q = some y ∨ next s q = some y) ∧ y.covers q = true := by
  rw [covers_iff] at hcov
  rcases lt_or_ge x q with hlt | hge
  · obtain ⟨y, hy⟩ := exists_nextBack hx hlt
    obtain ⟨⟨hmem, hyq⟩, hmax⟩ := nextBack_eq_some_iff.1 hy
    have hxy := hmax x hx hlt
    rw [lt_iff] at hyq
    rw [le_iff] at hxy
    refine ⟨y, .inl hy, covers_iff.2 ⟨by omega, ?_⟩⟩
    -- otherwise the last range below the query hides `x`
    by_contra hstop
    exact hno ⟨y, hmem, by omega, by omega, by omega⟩
  · obtain ⟨y, hy⟩ := exists_next hx hge
    obtain ⟨⟨-, hqy⟩, hmin⟩ := next_eq_some_iff.1 hy
    have hyx := hmin x hx hge
    rw [le_iff] at hqy hyx
    exact ⟨y, .inr hy, covers_iff.2 ⟨by omega, by omega⟩⟩

/-- A lookup finds something exactly when some range that covers the query is not hidden. -/
theorem isSome_getRangeCover :
    (s.getRangeCover q).isSome = true ↔ ∃ x ∈ s, x.covers q = true ∧ ¬ Hidden s q x := by
  constructor
  · intro h
    obtain ⟨x, hx⟩ := Option.isSome_iff_exists.1 h
    obtain ⟨hnear, hcov⟩ := neighbour_eq_some hx
    exact ⟨x, (neighbour_some hx).1, hcov, not_hidden_of_neighbour hnear hcov⟩
  · rintro ⟨x, hx, hcov, hno⟩
    obtain ⟨y, hnear, hy⟩ := exists_neighbour_of_not_hidden hx hcov hno
    exact isSome_neighbour_of hnear hy

/-- Below the largest `usize`, the lookup of a position is the lookup of its byte. -/
theorem getPositionCover_eq {position : Nat} (h : position < usizeMax) :
    s.getPositionCover position = s.getRangeCover ⟨position, position + 1⟩ := by
  have hadd : usizeAdd position 1 = position + 1 := by
    unfold usizeMax at h
    unfold usizeAdd
    omega
  unfold getPositionCover getRangeCover
  rw [hadd]
  rfl

/-! ## Complete lookups -/

/-- `get_position_cover` finds a range exactly when one contains the position. -/
def PositionComplete (s : WindowRangeSet) (position : Nat) : Prop :=
  ((s.getPositionCover position).isSome = true ↔ ∃ r ∈ s, r.contains position = true) ∧
  ∀ r, s.getPositionCover position = some r → r ∈ s ∧ r.contains position = true

/-- `get_range_cover` finds a range exactly when one covers the range. -/
def RangeComplete (s : WindowRangeSet) (range : WindowRange) : Prop :=
  ((s.getRangeCover range).isSome = true ↔ ∃ r ∈ s, r.covers range = true) ∧
  ∀ r, s.getRangeCover range = some r → r ∈ s ∧ r.covers range = true

/-- When ranges cover the query, one of them is not hidden. -/
def Unhidden (s : WindowRangeSet) (q : WindowRange) : Prop :=
  (∃ x ∈ s, x.covers q = true) → ∃ x ∈ s, x.covers q = true ∧ ¬ Hidden s q x

theorem rangeComplete_iff (s : WindowRangeSet) (range : WindowRange) :
    RangeComplete s range ↔ Unhidden s range := by
  unfold RangeComplete Unhidden
  rw [isSome_getRangeCover]
  constructor
  · intro h
    exact h.1.2
  · intro h
    refine ⟨⟨?_, h⟩, fun r => neighbour_some⟩
    rintro ⟨x, hx, hcov, -⟩
    exact ⟨x, hx, hcov⟩

theorem positionComplete_iff (hs : ∀ r ∈ s, r.stop ≤ usizeMax) (position : Nat) :
    PositionComplete s position ↔ Unhidden s ⟨position, position + 1⟩ := by
  by_cases h : position < usizeMax
  · rw [← rangeComplete_iff]
    unfold PositionComplete RangeComplete
    rw [getPositionCover_eq h]
    rfl
  · -- no range goes as far
    have hnone : ¬ ∃ r ∈ s, r.contains position = true := by
      rintro ⟨r, hr, hcontains⟩
      have hstop := hs r hr
      rw [contains_eq_covers, covers_iff] at hcontains
      dsimp only at hcontains
      omega
    have hvacuous : Unhidden s ⟨position, position + 1⟩ := fun hcov => absurd hcov hnone
    refine iff_of_true ⟨iff_of_false ?_ hnone, fun r => neighbour_some⟩ hvacuous
    intro hsome
    obtain ⟨x, hx⟩ := Option.isSome_iff_exists.1 hsome
    exact hnone ⟨x, neighbour_some hx⟩

/-- A short window inside a long one. -/
def nestedWindows : WindowRangeSet := {⟨0, 10⟩, ⟨2, 3⟩}

/-- Position 5 is in the long window and hidden by the short one. -/
theorem not_complete_nested :
    (∀ r ∈ nestedWindows, r.start < r.stop) ∧ ¬ PositionComplete nestedWindows 5 ∧
      ¬ RangeComplete nestedWindows ⟨5, 6⟩ := by
  have hlong : (⟨0, 10⟩ : WindowRange) ∈ nestedWindows := by decide
  have hnone : ¬ (nestedWindows.getRangeCover ⟨5, 6⟩).isSome = true := by
    rw [isSome_getRangeCover]
    rintro ⟨x, hx, hcov, hno⟩
    refine hno ⟨⟨2, 3⟩, by decide, ?_, by decide, by decide⟩
    rcases Finset.mem_insert.1 hx with rfl | hx
    · decide
    · rw [Finset.mem_singleton.1 hx] at hcov
      cases hcov
  have heq : nestedWindows.getPositionCover 5 = nestedWindows.getRangeCover ⟨5, 6⟩ :=
    getPositionCover_eq (by decide)
  refine ⟨by decide, ?_, ?_⟩
  · intro h
    have hsome := h.1.2 ⟨_, hlong, by decide⟩
    rw [heq] at hsome
    exact hnone hsome
  · exact fun h => hnone (h.1.2 ⟨_, hlong, by decide⟩)

/-- Both lookups are complete exactly for the queries that leave some covering range unhidden. -/
theorem lookups_complete_iff (s : WindowRangeSet) (hs : ∀ r ∈ s, r.stop ≤ usizeMax) :
    (∀ position, PositionComplete s position ↔ Unhidden s ⟨position, position + 1⟩) ∧
    ∀ range, RangeComplete s range ↔ Unhidden s range :=
  ⟨positionComplete_iff hs, rangeComplete_iff s⟩

/-- The condition for the queries of the nested windows. -/
theorem lookups_complete_iff_nested :
    (∀ position, PositionComplete nestedWindows position ↔
      Unhidden nestedWindows ⟨position, position + 1⟩) ∧
    ∀ range, RangeComplete nestedWindows range ↔ Unhidden nestedWindows range :=
  lookups_complete_iff nestedWindows (by decide)

end WindowRangeSet

end S3Archive.ControlLambda
