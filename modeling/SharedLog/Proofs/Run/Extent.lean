/-
# The extent of a run

A token tells in two ways how far its run goes. It tells the last position, which lies the count
less one behind the first position. And it lists all positions, from the first one up to an end
which is itself not listed and which is cut at the last position of all. So a list never goes as far
as that position: a run that ends there is listed but for its end, though its last position is told.

The sequencer hands out no such run, since its global tail stays behind every run. A token that was
read from a text may be for any run.
-/
import Mathlib.Data.List.Basic
import SharedLog.Proofs.Sequencer.History
import SharedLog.Wire

namespace SharedLog

variable {p last : Position} {token : Token}

/-! ## Consecutive positions -/

/-- The list consists of `n` consecutive positions, `first` and those after it, in order. -/
structure Position.Consecutive (first : Position) (n : Nat) (list : List Position) : Prop where
  length : list.length = n
  getElem?_eq : ∀ i < n, list[i]? = first.add? i

namespace Position.Consecutive

variable {first : Position} {n : Nat} {list : List Position}

lemma of_map_val (h : list.map (·.val) = List.range' first.val n) : Consecutive first n list where
  length := by simpa using congrArg List.length h
  getElem?_eq i hi := by
    have hval : (list.map (·.val))[i]? = some (first.val + i) := by
      rw [h, List.getElem?_range' hi, Nat.one_mul]
    rw [List.getElem?_map] at hval
    obtain ⟨p, hp, hpval⟩ := Option.map_eq_some_iff.mp hval
    rw [hp, eq_comm, add?_eq_some_iff, hpval]

/-- One more position is consecutive if it comes right behind the others. -/
lemma concat (h : Consecutive first n list) (hp : first.add? n = some p) :
    Consecutive first (n + 1) (list ++ [p]) where
  length := by rw [List.length_append, h.length, List.length_singleton]
  getElem?_eq i hi := by
    rcases Nat.lt_succ_iff_lt_or_eq.mp hi with hlt | rfl
    · rw [List.getElem?_append_left (h.length ▸ hlt), h.getElem?_eq i hlt]
    · rw [hp, ← h.length, List.getElem?_concat_length]

lemma getLast?_eq (h : Consecutive first n list) (hn : 0 < n) :
    list.getLast? = first.add? (n - 1) := by
  rw [List.getLast?_eq_getElem?, h.length]
  exact h.getElem?_eq _ (by omega)

/-- Consecutive positions ascend. -/
lemma pairwise_lt (h : Consecutive first n list) : list.Pairwise (· < ·) := by
  have hval : ∀ i (hi : i < list.length), list[i].val = first.val + i := fun i hi => by
    have hsome := h.getElem?_eq i (h.length ▸ hi)
    rw [List.getElem?_eq_getElem hi, eq_comm, add?_eq_some_iff] at hsome
    exact hsome
  refine List.pairwise_iff_getElem.mpr fun i j hi hj hij => ?_
  rw [lt_def, hval i hi, hval j hj]
  omega

end Position.Consecutive

namespace Token

/-! ## The last position -/

lemma last?_eq_some_iff : token.last? = some last ↔
    token.count ≠ 0 ∧ last.val + 1 = token.first.val + token.count.toNat := by
  unfold last?
  split
  · simp [*]
  · rename_i hcount
    have hpos := Sequencer.toNat_pos hcount
    rw [Position.add?_eq_some_iff]
    exact ⟨fun h => ⟨hcount, by omega⟩, fun h => by omega⟩

lemma last?_eq_none_iff : token.last? = none ↔
    token.count = 0 ∨ Position.bound < token.first.val + token.count.toNat := by
  unfold last?
  split
  · simp [*]
  · rename_i hcount
    have hpos := Sequencer.toNat_pos hcount
    rw [Position.add?_eq_none_iff, or_iff_right hcount]
    omega

lemma first_le_last (h : token.last? = some last) : token.first ≤ last := by
  obtain ⟨hcount, hval⟩ := last?_eq_some_iff.mp h
  have hpos := Sequencer.toNat_pos hcount
  exact Position.le_def.mpr (by omega)

/-- A run of one position, and no other, begins where it ends. -/
lemma first_eq_last_iff (h : token.last? = some last) : token.first = last ↔ token.count = 1 := by
  obtain ⟨-, hval⟩ := last?_eq_some_iff.mp h
  rw [← UInt64.toNat_inj]
  exact ⟨fun heq => by rw [heq] at hval; simpa using hval.symm,
    fun hcount => Position.ext (by rw [hcount] at hval; simpa using hval.symm)⟩

/-! ## The list of positions -/

/-- As many positions are listed as are counted, unless the run reaches the last position of all. -/
lemma length_eq_iff :
    token.length = token.count.toNat ↔ token.first.val + token.count.toNat < Position.bound := by
  have hfirst := token.first.isLt
  have hbound : UInt64.size = Position.bound := rfl
  rw [length]
  omega

/-- One position is missing from the list if the run ends at the last position of all. -/
lemma length_succ (h : token.first.val + token.count.toNat = Position.bound) :
    token.length + 1 = token.count.toNat := by
  have hfirst := token.first.isLt
  have hbound : UInt64.size = Position.bound := rfl
  rw [length]
  omega

/-- The positions that a token lists, by their numbers. -/
lemma map_val_positions :
    token.positions.map (·.val) = List.range' token.first.val token.length := by
  rw [positions, firstPositions, Nat.min_self, List.map_filterMap]
  refine (List.filterMap_congr fun n hn => ?_).trans List.filterMap_some
  have hlt : n < Position.bound := by
    have hmem := List.mem_range'_1.mp hn
    have hbound : UInt64.size = Position.bound := rfl
    rw [length] at hmem
    omega
  rw [Position.ofNat?, dif_pos hlt, Option.map_some]

lemma mem_positions : p ∈ token.positions ↔
    token.first ≤ p ∧ p.val < token.first.val + token.length := by
  rw [← List.mem_map_of_injective (fun _ _ => Position.ext), map_val_positions, List.mem_range'_1,
    Position.le_def]

/-- A run that ends before the last position of all lists its positions up to its end. -/
lemma mem_positions_iff (h : token.last? = some last) (hlast : last.val + 1 < Position.bound) :
    p ∈ token.positions ↔ token.first ≤ p ∧ p ≤ last := by
  obtain ⟨-, hval⟩ := last?_eq_some_iff.mp h
  rw [mem_positions, length_eq_iff.mpr (hval ▸ hlast), ← hval, Position.le_def (q := last),
    Nat.lt_succ_iff]

lemma consecutive_positions (token : Token) :
    Position.Consecutive token.first token.length token.positions :=
  .of_map_val map_val_positions

/-- A query lists nothing, not even at the last position of all. -/
lemma positions_eq_nil (hcount : token.count = 0) : token.positions = [] := by
  have hlength : token.length = token.count.toNat :=
    length_eq_iff.mpr (by simpa [hcount] using token.first.isLt)
  refine List.eq_nil_of_length_eq_zero (token.consecutive_positions.length.trans ?_)
  rw [hlength, hcount, UInt64.toNat_zero]

/-! ## The two together -/

/-- A list that counts right ends with the last position. -/
lemma getLast?_positions (h : token.length = token.count.toNat) :
    token.positions.getLast? = token.last? := by
  have hconsecutive := token.consecutive_positions
  rw [h] at hconsecutive
  unfold last?
  split
  · rename_i hcount
    rw [positions_eq_nil hcount, List.getLast?_nil]
  · rename_i hcount
    exact hconsecutive.getLast?_eq (Sequencer.toNat_pos hcount)

/-- A run that ends at the last position of all is listed but for that position. -/
lemma consecutive_positions_concat (h : token.last? = some Position.last) :
    Position.Consecutive token.first token.count.toNat (token.positions ++ [Position.last]) := by
  obtain ⟨-, hval⟩ := last?_eq_some_iff.mp h
  have hlength := length_succ (hval.symm.trans (Position.eq_last_iff.mp rfl))
  rw [← hlength]
  refine token.consecutive_positions.concat (Position.add?_eq_some_iff.mpr ?_)
  omega

/-- The list of a token's positions and its last position agree, unless that is the last position
of all.

Whatever the first position and the count, the positions are listed in ascending order. If the token
tells a last position, it lists as many consecutive positions as it counts, of which that one is the
last, if and only if there is a position behind it; if there is none, it alone is missing from the
list. The token tells no last position if and only if it counts none, and then it lists none, or the
run would go beyond the last position of all. -/
theorem positions_match_last (token : Token) :
    (∀ last, token.last? = some last →
      (Position.Consecutive token.first token.count.toNat token.positions ∧
        token.positions.getLast? = some last ↔ last ≠ Position.last) ∧
      (last = Position.last →
        Position.Consecutive token.first token.count.toNat (token.positions ++ [last]))) ∧
    (token.last? = none ↔
      token.count = 0 ∨ Position.bound < token.first.val + token.count.toNat) ∧
    (token.count = 0 → token.positions = []) ∧
    token.positions.Pairwise (· < ·) := by
  refine ⟨fun last hlast => ⟨?_, ?_⟩, last?_eq_none_iff, positions_eq_nil,
    token.consecutive_positions.pairwise_lt⟩
  · obtain ⟨-, hval⟩ := last?_eq_some_iff.mp hlast
    have hin : last ≠ Position.last ↔ token.length = token.count.toNat := by
      have hle := last.isLt
      rw [Ne, Position.eq_last_iff, length_eq_iff, ← hval]
      omega
    rw [hin, ← hlast]
    constructor
    · rintro ⟨hconsecutive, -⟩
      exact token.consecutive_positions.length.symm.trans hconsecutive.length
    · intro hlength
      exact ⟨hlength ▸ token.consecutive_positions, getLast?_positions hlength⟩
  · rintro rfl
    exact consecutive_positions_concat hlast

/-- Of two runs of two positions the second one ends at the last position of all. -/
theorem positions_match_last_near_end :
    let first : Position := ⟨18_446_744_073_709_551_613, by decide⟩
    let second : Position := ⟨18_446_744_073_709_551_614, by decide⟩
    let run (p : Position) : Token := ⟨Epoch.zero, p, 2, ∅⟩
    (run first).last? = some second ∧
      Position.Consecutive first 2 (run first).positions ∧
      (run first).positions.getLast? = some second ∧
      (run second).last? = some Position.last ∧
      ¬ (Position.Consecutive second 2 (run second).positions ∧
        (run second).positions.getLast? = some Position.last) ∧
      Position.Consecutive second 2 ((run second).positions ++ [Position.last]) := by
  intro first second run
  have hfirst : (run first).last? = some second := by decide
  have hsecond : (run second).last? = some Position.last := by decide
  obtain ⟨hlisted, -⟩ := (positions_match_last (run first)).1 second hfirst
  obtain ⟨hcut, hmissing⟩ := (positions_match_last (run second)).1 Position.last hsecond
  obtain ⟨hconsecutive, hends⟩ := hlisted.mpr (by decide)
  exact ⟨hfirst, hconsecutive, hends, hsecond, fun h => hcut.mp h rfl, hmissing rfl⟩

/-- A text may be read as a token for a run of one position, the last of all. The token tells this
position and does not list it. -/
theorem positions_lack_last : ∃ token : Token,
    Wire.decode? ("\x7b\"epoch\":0,\"first_position\":18446744073709551615,\"count\":1," ++
      "\"backpointers\":\x7b\x7d\x7d") = some token ∧
    token.count = 1 ∧ token.last? = some Position.last ∧ token.positions = [] ∧
    ¬ (Position.Consecutive token.first token.count.toNat token.positions ∧
      token.positions.getLast? = some Position.last) := by
  let token : Token := ⟨Epoch.zero, Position.last, 1, ∅⟩
  have hpositions : token.positions = [] := by decide
  refine ⟨token, by decide +kernel, rfl, by decide, hpositions, ?_⟩
  rintro ⟨-, hends⟩
  rw [hpositions] at hends
  cases hends

end Token

/-- A token that the sequencer gives lists its run in full, since the global tail comes after it. -/
theorem Sequencer.lists_run_of_allocate {q : Sequencer} {request : TokenRequest}
    (h : (q.allocate request).1 = .ok token) :
    Position.Consecutive token.first request.count.toNat token.positions ∧
      token.positions.getLast? = token.last? := by
  have hcount : token.count = request.count := by rw [(token_of_allocate h).2]
  have hend : token.first.val + token.count.toNat < Position.bound := by
    by_cases hquery : token.count = 0
    · simpa [hquery] using token.first.isLt
    · obtain ⟨tail, -, -, -, htail, -⟩ := run_of_allocate h hquery
      exact htail ▸ tail.isLt
  have hlength := Token.length_eq_iff.mpr hend
  exact ⟨hcount ▸ hlength ▸ token.consecutive_positions, Token.getLast?_positions hlength⟩

end SharedLog
