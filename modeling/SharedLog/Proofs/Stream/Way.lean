/-
# The way along a stream

A reader of a stream goes from position to position: from an entry of the stream to where it points,
from anything else to the position before. Its way is the list of the positions that it comes to,
each with the value that it is shown there.

Nothing keeps an entry from pointing at its own position or at a later one. A way that ends comes
to no position twice all the same, since it could not leave the circle. It leads backwards all the
time if and only if every entry of the stream on it points backwards, and it is just then that the
entries are found in order.
-/
import Mathlib.Data.List.Nodup
import Mathlib.Data.List.Perm.Subperm
import SharedLog.Client

namespace SharedLog.Client

variable {stream : StreamId} {cursor goal : Option Position} {p q : Position} {v : LogData}
  {way way' : List (Position × LogData)}

/-! ## Ways -/

/-- Where a reader of a stream goes on from a position with a value. -/
def onward (stream : StreamId) (p : Position) : LogData → Option Position
  | .hole => p.prev?
  | .entry entry => if entry.belongsTo stream then entry.backpointer stream else p.prev?

/-- The entry of the stream that is found at a position with a value. -/
def found? (stream : StreamId) : Position × LogData → Option (Position × LogEntry)
  | (_, .hole) => none
  | (p, .entry entry) => if entry.belongsTo stream then some (p, entry) else none

/-- A way from one position to another one, from and to nowhere included. -/
def Walks (stream : StreamId) : Option Position → List (Position × LogData) → Option Position → Prop
  | cursor, [], goal => cursor = goal
  | cursor, (p, v) :: way, goal => cursor = some p ∧ Walks stream (onward stream p v) way goal

/-- An entry of the stream points to an earlier position, if to any. -/
def LeadsBack (stream : StreamId) : Position × LogData → Prop
  | (_, .hole) => True
  | (p, .entry entry) =>
    entry.belongsTo stream = true → ∀ q, entry.backpointer stream = some q → q < p

/-- The entries of the stream on a way, the last one first. -/
def foundOn (stream : StreamId) (way : List (Position × LogData)) : List (Position × LogEntry) :=
  (way.filterMap (found? stream)).reverse

lemma onward_lt (h : LeadsBack stream (p, v)) (hq : onward stream p v = some q) : q < p := by
  have hprev : p.prev? = some q → q < p := fun hq => by
    have hval := Position.prev?_eq_some_iff.mp hq
    exact Position.lt_def.mpr (by omega)
  cases v with
  | hole => exact hprev hq
  | entry entry =>
    rw [onward] at hq
    split at hq
    · exact h ‹_› q hq
    · exact hprev hq

lemma fst_of_found? {x : Position × LogData} {y : Position × LogEntry}
    (h : found? stream x = some y) : y.1 = x.1 := by
  obtain ⟨p, _ | entry⟩ := x
  · rw [found?] at h
    split at h <;> cases h
    rfl
  · cases h

lemma onward_of_found?_eq_none (h : found? stream (p, v) = none) :
    onward stream p v = p.prev? := by
  cases v with
  | hole => rfl
  | entry entry =>
    rw [found?] at h
    split at h
    · cases h
    · exact if_neg ‹_›

/-- A way goes on by one position. -/
lemma Walks.concat (h : Walks stream cursor way (some p)) (v : LogData) :
    Walks stream cursor (way ++ [(p, v)]) (onward stream p v) := by
  induction way generalizing cursor with
  | nil => exact ⟨h, rfl⟩
  | cons x way ih => exact ⟨h.1, ih h.2⟩

lemma foundOn_concat (x : Position × LogData) :
    foundOn stream (way ++ [x]) = (found? stream x).toList ++ foundOn stream way := by
  rw [foundOn, List.filterMap_append, List.reverse_append, foundOn, List.filterMap_cons,
    List.filterMap_nil]
  cases found? stream x <;> rfl

/-- A way is one up to any position on it and one from there. -/
lemma Walks.of_append (h : Walks stream cursor (way ++ way') goal) :
    ∃ mid, Walks stream mid way' goal := by
  induction way generalizing cursor with
  | nil => exact ⟨cursor, h⟩
  | cons x way ih => exact ih h.2

/-! ## Ways that lead backwards -/

/-- Where all entries of the stream point backwards, so does the way. -/
lemma Walks.descends (h : Walks stream cursor way goal)
    (hback : ∀ x ∈ way, LeadsBack stream x) :
    (∀ c, cursor = some c → ∀ x ∈ way, x.1 ≤ c) ∧ way.Pairwise fun x y => y.1 < x.1 := by
  induction way generalizing cursor with
  | nil => exact ⟨fun _ _ x hx => absurd hx List.not_mem_nil, .nil⟩
  | cons x way ih =>
    obtain ⟨p, v⟩ := x
    obtain ⟨rfl, hway⟩ := h
    obtain ⟨hbelow, hsorted⟩ := ih hway fun y hy => hback y (List.mem_cons_of_mem _ hy)
    -- all that comes later is before the position where the way goes on
    have hlater : ∀ y ∈ way, y.1 < p := by
      intro y hy
      cases honward : onward stream p v with
      | none =>
        rw [honward] at hway
        cases way with
        | nil => cases hy
        | cons z way => cases hway.1
      | some q =>
        have hlt := onward_lt (hback (p, v) List.mem_cons_self) honward
        exact Nat.lt_of_le_of_lt (hbelow q honward y hy) hlt
    refine ⟨?_, List.pairwise_cons.mpr ⟨hlater, hsorted⟩⟩
    rintro c ⟨⟩ y hy
    rcases List.mem_cons.mp hy with rfl | hy
    · exact Nat.le_refl _
    · exact Nat.le_of_lt (hlater y hy)

/-- The entries of the stream on a way that leads backwards are found in order. -/
lemma foundOn_sorted (h : way.Pairwise fun x y => y.1 < x.1) :
    (foundOn stream way).Pairwise fun x y => x.1 < y.1 := by
  rw [foundOn, List.pairwise_reverse]
  refine h.filterMap _ fun x y hlt x' hx y' hy => ?_
  rw [fst_of_found? hx, fst_of_found? hy]
  exact hlt

/-- A way that leads backwards comes to no position twice. -/
lemma Walks.nodup_of_leadsBack (h : Walks stream cursor way goal)
    (hback : ∀ x ∈ way, LeadsBack stream x) : (way.map Prod.fst).Nodup := by
  refine List.pairwise_map.mpr ((h.descends hback).2.imp fun hlt heq => ?_)
  rw [heq] at hlt
  exact Nat.lt_irrefl _ hlt

/-- A way that comes to no position twice is not longer than the log. -/
lemma length_le_bound (h : (way.map Prod.fst).Nodup) : way.length ≤ Position.bound := by
  have hvals : ((way.map Prod.fst).map Position.val).Nodup :=
    h.map fun _ _ => Position.ext
  have hsub : (way.map Prod.fst).map Position.val ⊆ List.range Position.bound := by
    intro n hn
    obtain ⟨q, -, rfl⟩ := List.mem_map.mp hn
    exact List.mem_range.mpr q.isLt
  simpa using (List.subperm_of_subset hvals hsub).length_le

/-! ## Ways that end -/

/-- A way that ends has come down to every position before its first one, unless it has found an
entry of the stream behind that. -/
lemma Walks.passes (h : Walks stream (some q) way none) (hpq : p ≤ q) :
    (∃ v, (p, v) ∈ way) ∨ ∃ x ∈ way.filterMap (found? stream), p < x.1 := by
  induction way generalizing q with
  | nil => cases h
  | cons x way ih =>
    obtain ⟨r, v⟩ := x
    obtain ⟨⟨⟩, hway⟩ := h
    rcases Nat.eq_or_lt_of_le hpq with heq | hlt
    · exact .inl ⟨v, Position.ext heq ▸ List.mem_cons_self⟩
    · cases hfound : found? stream (q, v) with
      | some y =>
        refine .inr ⟨y, List.mem_filterMap.mpr ⟨_, List.mem_cons_self, hfound⟩, ?_⟩
        exact fst_of_found? hfound ▸ hlt
      | none =>
        rw [onward_of_found?_eq_none hfound] at hway
        cases hprev : q.prev? with
        | none =>
          have hzero := Position.prev?_eq_none_iff.mp hprev
          omega
        | some r =>
          have hval := Position.prev?_eq_some_iff.mp hprev
          rw [hprev] at hway
          have hpr : p ≤ r := Position.le_def.mpr (by omega)
          refine (ih hway hpr).imp (fun ⟨u, hu⟩ => ⟨u, List.mem_cons_of_mem _ hu⟩) ?_
          rintro ⟨y, hy, hlt'⟩
          obtain ⟨x, hx, hxy⟩ := List.mem_filterMap.mp hy
          exact ⟨y, List.mem_filterMap.mpr ⟨x, List.mem_cons_of_mem _ hx, hxy⟩, hlt'⟩

/-- Two ways that end are the same if they begin at the same position and are shown the same. -/
lemma Walks.unique (h : Walks stream cursor way none) (h' : Walks stream cursor way' none)
    (hsame : ∀ p v v', (p, v) ∈ way → (p, v') ∈ way' → v = v') : way = way' := by
  induction way generalizing cursor way' with
  | nil =>
    obtain rfl : cursor = none := h
    cases way' with
    | nil => rfl
    | cons y way' => cases h'.1
  | cons x way ih =>
    obtain ⟨p, v⟩ := x
    obtain ⟨rfl, hway⟩ := h
    cases way' with
    | nil => cases h'
    | cons y way' =>
      obtain ⟨p', v'⟩ := y
      obtain ⟨⟨⟩, hway'⟩ := h'
      obtain rfl := hsame p v v' List.mem_cons_self List.mem_cons_self
      rw [ih hway hway' fun r u u' hu hu' =>
        hsame r u u' (List.mem_cons_of_mem _ hu) (List.mem_cons_of_mem _ hu')]

/-- A way that ends comes to no position twice. -/
theorem Walks.nodup (h : Walks stream cursor way none)
    (hsame : ∀ p v v', (p, v) ∈ way → (p, v') ∈ way → v = v') : (way.map Prod.fst).Nodup := by
  induction way generalizing cursor with
  | nil => exact .nil
  | cons x way ih =>
    obtain ⟨p, v⟩ := x
    refine List.nodup_cons.mpr ⟨fun hmem => ?_, ih h.2 fun q u u' hu hu' =>
      hsame q u u' (List.mem_cons_of_mem _ hu) (List.mem_cons_of_mem _ hu')⟩
    -- from the second time on the way would be as from the first one
    obtain ⟨⟨q, v'⟩, hx, rfl : q = p⟩ := List.mem_map.mp hmem
    obtain rfl := hsame q v v' List.mem_cons_self (List.mem_cons_of_mem _ hx)
    obtain ⟨before, after, rfl⟩ := List.append_of_mem hx
    obtain ⟨mid, hagain⟩ := Walks.of_append h.2
    obtain rfl : cursor = mid := h.1.trans hagain.1.symm
    have heq := h.unique hagain fun q u u' hu hu' => hsame q u u' hu
      (List.mem_cons_of_mem _ (List.mem_append_right _ hu'))
    have hlength := congrArg List.length heq
    simp only [List.length_cons, List.length_append] at hlength
    omega

/-- The entries of the stream on a way that ends are found in order only if all of them point
backwards. -/
theorem Walks.leadsBack (h : Walks stream cursor way none) (hnodup : (way.map Prod.fst).Nodup)
    (hsorted : (foundOn stream way).Pairwise fun x y => x.1 < y.1) :
    ∀ x ∈ way, LeadsBack stream x := by
  rintro ⟨p, v⟩ hx
  cases v with
  | hole => trivial
  | entry entry =>
    intro hbelongs q hq
    by_contra hnot
    have hpq : p ≤ q := Nat.le_of_not_lt hnot
    obtain ⟨before, after, rfl⟩ := List.append_of_mem hx
    obtain ⟨_, rfl, hafter⟩ := h.of_append
    rw [onward, if_pos hbelongs, hq] at hafter
    rcases hafter.passes hpq with ⟨v, hmem⟩ | ⟨y, hy, hlt⟩
    · -- the way comes to the position again
      rw [List.map_append, List.map_cons, List.nodup_append, List.nodup_cons] at hnodup
      exact hnodup.2.1.1 (List.mem_map.mpr ⟨_, hmem, rfl⟩)
    · -- an entry behind the position is found later, and so before it
      have hfound : found? stream (p, .entry entry) = some (p, entry) := if_pos hbelongs
      rw [foundOn, List.filterMap_append, List.filterMap_cons_some hfound, List.pairwise_reverse,
        List.pairwise_append, List.pairwise_cons] at hsorted
      exact absurd (hsorted.2.1.1 y hy) (Nat.not_lt.mpr (Nat.le_of_lt hlt))

end SharedLog.Client
