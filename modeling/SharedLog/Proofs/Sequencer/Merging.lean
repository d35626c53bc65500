/-
# Merges form a join

Merges of one epoch may come in any order and any number of times. Each of them is accepted or
refused for its own hints only, and what they come to in the end is the maximum of the tails and of
all accepted hints. That a repeated merge may be answered without being looked at makes no
difference, since the tails are behind its hints already (`Absorbed`).

A single merge is treated once (`merged_bootstrap`). That the end does not depend on the order is
read off from the maxima, of which it only matters what they range over.
-/
import SharedLog.Proofs.Sequencer.Resubmission

namespace SharedLog

/-! ## What a merge hints at -/

namespace BootstrapRequest

variable {request : BootstrapRequest}

/-- Whether the hint for some stream is the last position of all. -/
def hintsLast (request : BootstrapRequest) : Bool :=
  request.streamTailHints.toList.any fun hinted => hinted.2 = some Position.last

lemma hintsLast_eq_true_iff :
    request.hintsLast = true ↔ ∃ stream, request.streamTailHints.at? stream = some .last := by
  simp [hintsLast, Sequencer.at?_eq_some_iff_mem_toList]

lemma hintsLast_eq_false_iff :
    request.hintsLast = false ↔ ∀ stream, request.streamTailHints.at? stream ≠ some .last := by
  rw [← Bool.not_eq_true, hintsLast_eq_true_iff, not_exists]

/-- The numbers that the global tail is not below after a merge: the hint for it, and for each
stream the number after the stream's hint. -/
def bounds (request : BootstrapRequest) : List Nat :=
  request.globalTailHint.val ::
    request.streamTailHints.toList.filterMap fun hinted => hinted.2.map (·.val + 1)

lemma forall_mem_bounds {n : Nat} : (∀ m ∈ request.bounds, m ≤ n) ↔
    request.globalTailHint.val ≤ n ∧
      ∀ stream p, request.streamTailHints.at? stream = some p → p.val < n := by
  simp only [bounds, List.forall_mem_cons, List.mem_filterMap, Option.map_eq_some_iff,
    Sequencer.at?_eq_some_iff_mem_toList]
  refine and_congr_right fun _ => ⟨fun h stream p hp => ?_, ?_⟩
  · exact h _ ⟨_, hp, p, rfl, rfl⟩
  · rintro h m ⟨⟨stream, hint⟩, hmem, p, rfl, rfl⟩
    exact h stream p hmem

end BootstrapRequest

/-! ## Maxima -/

lemma foldl_max_le_iff {l : List Nat} {m n : Nat} :
    l.foldl max m ≤ n ↔ m ≤ n ∧ ∀ k ∈ l, k ≤ n := by
  induction l generalizing m with
  | nil => simp
  | cons k l ih =>
    rw [List.foldl_cons, ih, Nat.max_le, List.forall_mem_cons, and_assoc]

/-- The largest of some numbers depends on what the numbers are, not on their order. -/
lemma foldl_max_congr {l l' : List Nat} (h : ∀ k, k ∈ l ↔ k ∈ l') (m : Nat) :
    l.foldl max m = l'.foldl max m := by
  have hle : ∀ {l l' : List Nat}, (∀ k, k ∈ l ↔ k ∈ l') → l.foldl max m ≤ l'.foldl max m := by
    intro l l' h
    obtain ⟨hm, hl⟩ := foldl_max_le_iff.mp (Nat.le_refl (l'.foldl max m))
    exact foldl_max_le_iff.mpr ⟨hm, fun k hk => hl k ((h k).mp hk)⟩
  exact Nat.le_antisymm (hle h) (hle fun k => (h k).symm)

/-- A tail that is there lies before a number. -/
def TailBefore (n : Nat) (tail : Option Position) : Prop := ∀ p, tail = some p → p.val < n

lemma tailBefore_max {n : Nat} {a b : Option Position} :
    TailBefore n (max a b) ↔ TailBefore n a ∧ TailBefore n b := by
  unfold TailBefore
  cases a with
  | none => simp
  | some p =>
    cases b with
    | none => simp
    | some p' =>
      simp only [Option.max_some_some, Option.some.injEq, forall_eq', Position.val_max]
      exact Nat.max_lt

lemma tailBefore_foldl_max {n : Nat} {l : List (Option Position)} {tail : Option Position} :
    TailBefore n (l.foldl max tail) ↔ TailBefore n tail ∧ ∀ hint ∈ l, TailBefore n hint := by
  induction l generalizing tail with
  | nil => simp
  | cons hint l ih =>
    rw [List.foldl_cons, ih, tailBefore_max, List.forall_mem_cons, and_assoc]

/-- Two tails that lie before the same numbers are the same. -/
lemma eq_of_tailBefore_iff {a b : Option Position} (h : ∀ n, TailBefore n a ↔ TailBefore n b) :
    a = b := by
  unfold TailBefore at h
  cases a with
  | none =>
    cases b with
    | none => rfl
    | some p => simpa using h 0
  | some p =>
    cases b with
    | none => simpa using h 0
    | some p' =>
      have hp := (h (p'.val + 1)).mpr (by simp) p rfl
      have hp' := (h (p.val + 1)).mp (by simp) p' rfl
      exact congrArg some (Position.ext (by omega))

/-- The latest of some tails depends on what the tails are, not on their order. -/
lemma foldl_max_tail_congr {l l' : List (Option Position)} (h : ∀ hint, hint ∈ l ↔ hint ∈ l')
    (tail : Option Position) : l.foldl max tail = l'.foldl max tail :=
  eq_of_tailBefore_iff fun n => by simp only [tailBefore_foldl_max, h]

namespace Sequencer

variable {q q' : Sequencer} {request : BootstrapRequest} {epoch : Epoch}

/-! ## A single merge -/

/-- What a merge of the present or a later epoch comes to. -/
inductive Merged (q : Sequencer) (request : BootstrapRequest) :
    Except SequencerError BootstrapOutcome → Sequencer → Prop
  | refused {e : SequencerError} (last : request.hintsLast = true) : Merged q request (.error e) q
  | joined {outcome : BootstrapOutcome} {q' : Sequencer} (last : request.hintsLast = false)
      (epoch : q'.epoch = request.newEpoch)
      (globalTail : q'.globalTail.val = request.bounds.foldl max q.globalTail.val)
      (streamTail : ∀ stream, q'.streamTail stream =
        max (q.streamTail stream) (request.streamTailHints.at? stream)) :
    Merged q request (.ok outcome) q'

lemma Merged.of_reseed {outcome : BootstrapOutcome} (hmerge : request.fullReset = false)
    (h : q.reseed request = .ok (q'.globalTail, q'.streamTails))
    (hepoch : q'.epoch = request.newEpoch) : q.Merged request (.ok outcome) q' := by
  obtain ⟨hraised, htails⟩ := reseed_merge hmerge h
  simp only [← BootstrapRequest.forall_mem_bounds, ← foldl_max_le_iff] at hraised
  refine .joined ?_ hepoch ?_ htails
  · -- the global tail is behind all hints, and none is behind the last position
    refine BootstrapRequest.hintsLast_eq_false_iff.mpr fun stream hlast => ?_
    obtain ⟨-, hbounds⟩ := foldl_max_le_iff.mp ((hraised _).mp (Nat.le_refl _))
    have hlt := (BootstrapRequest.forall_mem_bounds.mp hbounds).2 stream _ hlast
    have hbound := q'.globalTail.isLt
    simp only [Position.last] at hlt
    omega
  · exact Nat.le_antisymm ((hraised _).mpr (Nat.le_refl _)) ((hraised _).mp (Nat.le_refl _))

/-- A sequencer that takes merges of an epoch: it has not left the epoch behind, and its tails are
as in every run. -/
structure Mergeable (q : Sequencer) (epoch : Epoch) : Prop where
  below : q.TailsBelow
  remembered : q.Remembered
  epoch_le : q.epoch ≤ epoch

theorem merged_bootstrap (h : q.Mergeable epoch) (hmerge : request.fullReset = false)
    (hnew : request.newEpoch = epoch) (now : Timestamp) :
    q.Merged request (q.bootstrap request now).1 (q.bootstrap request now).2 := by
  have hbootstrapped := q.bootstrapped_bootstrap request now
  generalize (q.bootstrap request now).1 = r, (q.bootstrap request now).2 = q' at hbootstrapped ⊢
  cases hbootstrapped with
  | stale hstale => exact absurd (hnew.symm ▸ h.epoch_le) (Nat.not_le.mpr hstale)
  | already hpresent hlast =>
    -- merging it once more would change nothing
    exact .of_reseed hmerge ((h.remembered request hlast).2.reseed_eq h.below hmerge) hpresent.symm
  | refused herror =>
    obtain ⟨hreset, -⟩ | ⟨-, stream, p, hp, hnext, rfl⟩ := reseed_eq_error herror
    · rw [hmerge] at hreset
      cases hreset
    · obtain rfl := Position.next?_eq_none_iff.mp hnext
      exact .refused (BootstrapRequest.hintsLast_eq_true_iff.mpr ⟨stream, hp⟩)
  | applied _ hseed => exact .of_reseed hmerge hseed rfl

lemma Merged.exists_iff {r : Except SequencerError BootstrapOutcome} (h : q.Merged request r q') :
    (∃ outcome, r = .ok outcome) ↔ request.hintsLast = false := by
  cases h with
  | refused hlast => simp [hlast]
  | joined hlast => simp [hlast]

lemma Mergeable.bootstrap (h : q.Mergeable epoch) (hmerge : request.fullReset = false)
    (hnew : request.newEpoch = epoch) (now : Timestamp) :
    (q.bootstrap request now).2.Mergeable epoch where
  below := h.below.serve (served_serve q (.bootstrap request now))
  remembered := h.remembered.serve h.below (.bootstrap request now)
  epoch_le := by
    have hmerged := merged_bootstrap h hmerge hnew now
    generalize (q.bootstrap request now).1 = r, (q.bootstrap request now).2 = q' at hmerged ⊢
    cases hmerged with
    | refused => exact h.epoch_le
    | joined _ hepoch => exact Nat.le_of_eq (congrArg Epoch.val (hepoch.trans hnew))

/-! ## A list of merges -/

/-- The merges that are not refused. -/
def accepted (requests : List BootstrapRequest) : List BootstrapRequest :=
  requests.filter fun request => !request.hintsLast

/-- What some accepted merges come to. -/
structure Joined (q : Sequencer) (epoch : Epoch) (requests : List BootstrapRequest)
    (q' : Sequencer) : Prop where
  epoch : q'.epoch = if requests = [] then q.epoch else epoch
  globalTail : q'.globalTail.val = (requests.flatMap (·.bounds)).foldl max q.globalTail.val
  streamTail : ∀ stream, q'.streamTail stream =
    (requests.map (·.streamTailHints.at? stream)).foldl max (q.streamTail stream)

namespace Joined

variable {requests requests' : List BootstrapRequest} {q'' : Sequencer}

lemma nil (q : Sequencer) (epoch : Epoch) : q.Joined epoch [] q := ⟨rfl, rfl, fun _ => rfl⟩

lemma cons {outcome : BootstrapOutcome} (hfirst : q.Merged request (.ok outcome) q')
    (hnew : request.newEpoch = epoch) (h : q'.Joined epoch requests q'') :
    q.Joined epoch (request :: requests) q'' := by
  cases hfirst with
  | joined _ hepoch hglobal htail =>
    refine ⟨?_, ?_, fun stream => ?_⟩
    · rw [h.epoch, hepoch, hnew, ite_self, if_neg (List.cons_ne_nil _ _)]
    · rw [h.globalTail, hglobal, List.flatMap_cons, List.foldl_append]
    · rw [h.streamTail, htail, List.map_cons, List.foldl_cons]

/-- What merges come to does not depend on their order and on how often each of them comes. -/
lemma unique (h : q.Joined epoch requests q') (h' : q.Joined epoch requests' q'')
    (hsame : ∀ request, request ∈ requests ↔ request ∈ requests') :
    q'.epoch = q''.epoch ∧ q'.globalTail = q''.globalTail ∧ q'.streamTails = q''.streamTails := by
  refine ⟨?_, Position.ext ?_, Std.ExtTreeMap.ext_getElem? fun {stream} => ?_⟩
  · have hnil : requests = [] ↔ requests' = [] := by
      simp only [List.eq_nil_iff_forall_not_mem, hsame]
    simp only [h.epoch, h'.epoch, hnil]
  · rw [h.globalTail, h'.globalTail]
    exact foldl_max_congr (fun n => by simp only [List.mem_flatMap, hsame]) _
  · refine (h.streamTail stream).trans (.trans ?_ (h'.streamTail stream).symm)
    exact foldl_max_tail_congr (fun hint => by simp only [List.mem_map, hsame]) _

end Joined

/-- The commands that ask for some merges, each at a moment of its own. -/
def merges (requests : List (BootstrapRequest × Timestamp)) : List Command :=
  requests.map fun asked => .bootstrap asked.1 asked.2

variable {requests : List (BootstrapRequest × Timestamp)}

lemma joined_merges (h : q.Mergeable epoch)
    (hmerges : ∀ asked ∈ requests, asked.1.fullReset = false ∧ asked.1.newEpoch = epoch) :
    q.Joined epoch (accepted (requests.map (·.1))) (q.after (merges requests)) := by
  induction requests generalizing q with
  | nil => exact .nil q epoch
  | cons asked requests ih =>
    obtain ⟨⟨hmerge, hnew⟩, hrest⟩ := List.forall_mem_cons.mp hmerges
    have hmerged := merged_bootstrap h hmerge hnew asked.2
    have hrest := ih (h.bootstrap hmerge hnew asked.2) hrest
    simp only [merges, accepted, List.map_cons, after_cons, serve]
    generalize (q.bootstrap asked.1 asked.2).1 = r, (q.bootstrap asked.1 asked.2).2 = q' at *
    have hfirst := hmerged
    cases hmerged with
    | refused hlast =>
      rw [List.filter_cons_of_neg (by simp [hlast])]
      exact hrest
    | joined hlast =>
      rw [List.filter_cons_of_pos (by simp [hlast])]
      exact .cons hfirst hnew hrest

lemma exists_ok_iff_of_mem_history (h : q.Mergeable epoch)
    (hmerges : ∀ asked ∈ requests, asked.1.fullReset = false ∧ asked.1.newEpoch = epoch)
    {now : Timestamp} {result : Except SequencerError BootstrapOutcome}
    (hmem : ⟨.bootstrap request now, result⟩ ∈ q.history (merges requests)) :
    (∃ outcome, result = .ok outcome) ↔ request.hintsLast = false := by
  induction requests generalizing q with
  | nil => cases hmem
  | cons asked requests ih =>
    obtain ⟨⟨hmerge, hnew⟩, hrest⟩ := List.forall_mem_cons.mp hmerges
    obtain heq | hmem := List.mem_cons.mp hmem
    · cases heq
      exact (merged_bootstrap h hmerge hnew asked.2).exists_iff
    · exact ih (h.bootstrap hmerge hnew asked.2) hrest hmem

/-- Merges of one epoch form a join.

They are asked for in any order and any number of times, in an epoch that a sequencer has not left
behind. Accepted are those that hint for no stream at the last position of all. In the end the
sequencer is in the epoch of the merges if one was accepted; the global tail is the largest of the
old one, the accepted hints for it, and the numbers after the accepted hints for streams; and the
tail of each stream is the latest of its old tail and of the accepted hints for it. Whichever order
the same merges come in, and however often, they leave the same epoch and the same tails. -/
theorem merges_join (start : Epoch) (maxTokens : UInt64) (commands : List Command) (epoch : Epoch)
    (requests : List (BootstrapRequest × Timestamp)) (q : Sequencer)
    (hq : q = (new start maxTokens).after commands) (hle : q.epoch ≤ epoch)
    (hmerges : ∀ asked ∈ requests, asked.1.fullReset = false ∧ asked.1.newEpoch = epoch) :
    (∀ request now (result : Except SequencerError BootstrapOutcome),
      ⟨.bootstrap request now, result⟩ ∈ q.history (merges requests) →
        ((∃ outcome, result = .ok outcome) ↔
          ∀ stream, request.streamTailHints.at? stream ≠ some Position.last)) ∧
    (q.after (merges requests)).epoch =
      (if accepted (requests.map (·.1)) = [] then q.epoch else epoch) ∧
    (q.after (merges requests)).globalTail.val =
      ((accepted (requests.map (·.1))).flatMap (·.bounds)).foldl max q.globalTail.val ∧
    (∀ stream, (q.after (merges requests)).streamTail stream =
      ((accepted (requests.map (·.1))).map (·.streamTailHints.at? stream)).foldl max
        (q.streamTail stream)) ∧
    ∀ requests' : List (BootstrapRequest × Timestamp),
      (∀ request, request ∈ requests.map (·.1) ↔ request ∈ requests'.map (·.1)) →
      (q.after (merges requests)).epoch = (q.after (merges requests')).epoch ∧
      (q.after (merges requests)).globalTail = (q.after (merges requests')).globalTail ∧
      (q.after (merges requests)).streamTails = (q.after (merges requests')).streamTails := by
  have hmergeable : q.Mergeable epoch :=
    ⟨hq ▸ tailsBelow_after start maxTokens commands, hq ▸ remembered_after start maxTokens commands,
      hle⟩
  have hjoined := joined_merges hmergeable hmerges
  refine ⟨fun request now result hmem => ?_, hjoined.epoch, hjoined.globalTail,
    hjoined.streamTail, fun requests' hsame => ?_⟩
  · rw [← BootstrapRequest.hintsLast_eq_false_iff]
    exact exists_ok_iff_of_mem_history hmergeable hmerges hmem
  · have hmerges' : ∀ asked ∈ requests',
        asked.1.fullReset = false ∧ asked.1.newEpoch = epoch := fun asked hmem => by
      obtain ⟨asked', hmem', heq⟩ :=
        List.mem_map.mp ((hsame asked.1).mpr (List.mem_map_of_mem hmem))
      exact heq ▸ hmerges asked' hmem'
    refine hjoined.unique (joined_merges hmergeable hmerges') fun request => ?_
    simp only [accepted, List.mem_filter, hsame]

/-- A merge that is remembered comes twice, between others of which one is refused. -/
theorem merges_join_of_two :
    let stream : StreamId := ⟨7, by decide⟩
    let pos (n : Fin 20) : Position := ⟨n, Nat.lt_trans n.isLt (by decide)⟩
    let next : Epoch := ⟨1, by decide⟩
    let first : BootstrapRequest := .merge next (pos 6) (.ofList [(stream, some (pos 2))])
    let second : BootstrapRequest := .merge next (pos 4) (.ofList [(stream, some (pos 8))])
    let refused : BootstrapRequest := .merge next (pos 9) (.ofList [(stream, some Position.last)])
    let asked := [(first, Timestamp.epoch), (refused, Timestamp.epoch), (second, Timestamp.epoch),
      (first, Timestamp.epoch)]
    let asked' := [(second, Timestamp.epoch), (first, Timestamp.epoch), (refused, Timestamp.epoch)]
    let q := (new Epoch.zero 5).after
      [.allocate ⟨Epoch.zero, 3, .ofList [stream]⟩, .bootstrap first Timestamp.epoch]
    q.lastBootstrap = some first ∧ q.globalTail = pos 6 ∧
      (q.after (merges asked)).globalTail = pos 9 ∧
      (q.after (merges asked)).streamTail stream = some (pos 8) ∧
      (q.after (merges asked)).globalTail = (q.after (merges asked')).globalTail ∧
      (q.after (merges asked)).streamTails = (q.after (merges asked')).streamTails := by
  intro stream pos next first second refused asked asked' q
  have hmerges : ∀ asks ∈ asked, asks.1.fullReset = false ∧ asks.1.newEpoch = next := by
    decide +kernel
  obtain ⟨-, -, -, -, horder⟩ := merges_join Epoch.zero 5 _ next asked q rfl
    (by decide +kernel) hmerges
  have hsame : ∀ request, request ∈ asked.map (·.1) ↔ request ∈ asked'.map (·.1) := by
    intro request
    simp only [asked, asked', List.map_cons, List.map_nil, List.mem_cons, List.not_mem_nil]
    tauto
  exact ⟨by decide +kernel, by decide +kernel, by decide +kernel, by decide +kernel,
    (horder asked' hsame).2⟩

end Sequencer

end SharedLog
