/-
# Settings from the environment

A setting that is a number is what its variable tells, if that is in its range, and else what it is
by default. It does not matter how long the text of the variable is, nor with how many zeros it
begins.
-/
import SharedLog.Config
import SharedLog.Proofs.Text.Numeral

namespace SharedLog

variable {env : Environment} {bound n : Nat} {name : String}

namespace Environment

/-- A variable holds a text that writes a number. -/
def Tells (env : Environment) (name : String) (n : Nat) : Prop :=
  ∃ text : String, env name = some text.toUTF8 ∧ Text.Writes text n

lemma text?_eq_some_iff {text : String} :
    env.text? name = some text ↔ env name = some text.toUTF8 := by
  rw [text?, Option.bind_eq_some_iff]
  constructor
  · rintro ⟨bytes, hbytes, htext⟩
    unfold String.fromUTF8? at htext
    split at htext
    · cases htext
      exact hbytes
    · cases htext
  · intro h
    refine ⟨_, h, ?_⟩
    unfold String.fromUTF8?
    exact dif_pos text.isValidUTF8

lemma number?_eq_some_iff : env.number? bound name = some n ↔ env.Tells name n ∧ n < bound := by
  rw [number?, Option.bind_eq_some_iff]
  constructor
  · rintro ⟨text, htext, hnumber⟩
    obtain ⟨hwrites, hlt⟩ := Text.Numeral.ofText?_eq_some_iff.mp hnumber
    exact ⟨⟨text, text?_eq_some_iff.mp htext, hwrites⟩, hlt⟩
  · rintro ⟨⟨text, htext, hwrites⟩, hlt⟩
    exact ⟨text, text?_eq_some_iff.mpr htext, Text.Numeral.ofText?_eq_some_iff.mpr ⟨hwrites, hlt⟩⟩

/-- The number of a given range that a variable writes. -/
def numberIn? (env : Environment) (bound : Nat) (positive : Bool) (name : String) : Option Nat :=
  (env.number? bound name).filter fun n => !positive || decide (0 < n)

lemma numberIn?_eq_some_iff {positive : Bool} : env.numberIn? bound positive name = some n ↔
    env.Tells name n ∧ n < bound ∧ (positive = true → 0 < n) := by
  rw [numberIn?, Option.filter_eq_some_iff, number?_eq_some_iff, and_assoc]
  cases positive <;> simp

/-- A word of any width that is read from a variable, where some words may not count. -/
lemma toNat_read {Word : Type} {toNat : Word → Nat} {ofNat : Nat → Word} {counts : Word → Bool}
    {positive : Bool} (h : ∀ n < bound, toNat (ofNat n) = n ∧
      counts (ofNat n) = (!positive || decide (0 < n))) (default : Word) :
    toNat ((((env.number? bound name).map ofNat).filter counts).getD default) =
      (env.numberIn? bound positive name).getD (toNat default) := by
  rw [numberIn?]
  cases hread : env.number? bound name with
  | none => rfl
  | some n =>
    obtain ⟨hvalue, hcounts⟩ := h n (number?_eq_some_iff.mp hread).2
    rw [Option.map_some, Option.filter_some, Option.filter_some, hcounts]
    split
    · exact hvalue
    · rfl

lemma filter_true {α : Type} (o : Option α) : (o.filter fun _ => true) = o := by cases o <;> rfl

lemma toNat_word (default : UInt64) : (env.word name default).toNat =
    (env.numberIn? UInt64.size false name).getD default.toNat := by
  rw [word, ← filter_true ((env.number? _ _).map _)]
  exact toNat_read (fun n hn => ⟨UInt64.toNat_ofNat_of_lt' hn, rfl⟩) default

lemma toNat_positiveWord (default : UInt64) : (env.positiveWord name default).toNat =
    (env.numberIn? UInt64.size true name).getD default.toNat := by
  refine toNat_read (fun n hn => ?_) default
  have hvalue : (UInt64.ofNat n).toNat = n := UInt64.toNat_ofNat_of_lt' hn
  refine ⟨hvalue, ?_⟩
  rw [Bool.not_true, Bool.false_or, decide_eq_decide, ne_eq, ← UInt64.toNat_inj, hvalue]
  exact Nat.pos_iff_ne_zero.symm

lemma toNat_halfWord (default : UInt32) : (env.halfWord name default).toNat =
    (env.numberIn? UInt32.size false name).getD default.toNat := by
  rw [halfWord, ← filter_true ((env.number? _ _).map _)]
  exact toNat_read (fun n hn => ⟨UInt32.toNat_ofNat_of_lt' hn, rfl⟩) default

lemma toNat_positiveHalfWord (default : UInt32) : (env.positiveHalfWord name default).toNat =
    (env.numberIn? UInt32.size true name).getD default.toNat := by
  refine toNat_read (fun n hn => ?_) default
  have hvalue : (UInt32.ofNat n).toNat = n := UInt32.toNat_ofNat_of_lt' hn
  refine ⟨hvalue, ?_⟩
  rw [Bool.not_true, Bool.false_or, decide_eq_decide, ne_eq, ← UInt32.toNat_inj, hvalue]
  exact Nat.pos_iff_ne_zero.symm

lemma val_epoch (default : Epoch) :
    (((env.number? UInt64.size name).bind Epoch.ofNat?).getD default).val =
      (env.numberIn? UInt64.size false name).getD default.val := by
  have hall : env.numberIn? UInt64.size false name = env.number? UInt64.size name := filter_true _
  rw [hall]
  cases hread : env.number? UInt64.size name with
  | none => rfl
  | some n =>
    have hn : n < Epoch.bound := (number?_eq_some_iff.mp hread).2
    rw [Option.bind_some, Epoch.ofNat?_eq_some_iff.mpr (rfl : (⟨n, hn⟩ : Epoch).val = n)]
    rfl

end Environment

/-! ## The settings that are numbers -/

/-- A setting that is a number. -/
structure NumericSetting where
  /-- The variable that it comes from. -/
  name : String
  /-- Its range: it is below this number. -/
  bound : Nat
  /-- Whether it may not be zero. -/
  positive : Bool
  /-- Its value in a configuration. -/
  value : Config → Nat

namespace NumericSetting

/-- The numbers that the setting can be. -/
def Allows (s : NumericSetting) (n : Nat) : Prop := n < s.bound ∧ (s.positive = true → 0 < n)

instance (s : NumericSetting) (n : Nat) : Decidable (s.Allows n) :=
  inferInstanceAs (Decidable (_ ∧ _))

/-- All settings that are numbers. -/
def all : List NumericSetting :=
  [⟨"SEQLOG_SEQUENCER_BUFFER_SIZE", 2 ^ 64, true, (·.sequencer.bufferSize.toNat)⟩,
    ⟨"SEQLOG_INITIAL_EPOCH", 2 ^ 64, false, (·.sequencer.initialEpoch.val)⟩,
    ⟨"SEQLOG_MAX_TOKENS_PER_REQUEST", 2 ^ 64, false, (·.sequencer.maxTokensPerRequest.toNat)⟩,
    ⟨"SEQLOG_HOLE_FILL_MAX_ATTEMPTS", 2 ^ 32, false, (·.replication.holeFillMaxAttempts.toNat)⟩,
    ⟨"SEQLOG_HOLE_FILL_DELAY_MS", 2 ^ 64, false, (·.replication.holeFillDelayMillis.toNat)⟩,
    ⟨"SEQLOG_HOLE_FILL_MAX_DELAY_MS", 2 ^ 64, false,
      (·.replication.holeFillMaxDelayMillis.toNat)⟩,
    ⟨"SEQLOG_HOLE_FILL_MAX_ELAPSED_MS", 2 ^ 64, false,
      (·.replication.holeFillMaxElapsedMillis.toNat)⟩,
    ⟨"SEQLOG_CHAIN_LENGTH", 2 ^ 64, true, (·.replication.chainLength.toNat)⟩,
    ⟨"SEQLOG_BOOTSTRAP_RETRY_COUNT", 2 ^ 32, true, (·.management.retryCount.toNat)⟩,
    ⟨"SEQLOG_BOOTSTRAP_RETRY_BASE_MS", 2 ^ 64, false, (·.management.retryBaseMillis.toNat)⟩,
    ⟨"SEQLOG_REPLAY_BATCH_SIZE", 2 ^ 64, true, (·.management.replayBatchSize.toNat)⟩,
    ⟨"SEQLOG_APPEND_MAX_ATTEMPTS", 2 ^ 32, true, (·.maxAppendAttempts.toNat)⟩]

/-- What the setting's variable tells, where that is a number that the setting can be. -/
def told? (s : NumericSetting) (env : Environment) : Option Nat :=
  env.numberIn? s.bound s.positive s.name

lemma told?_eq_some_iff {s : NumericSetting} :
    s.told? env = some n ↔ env.Tells s.name n ∧ s.Allows n := Environment.numberIn?_eq_some_iff

/-- Every setting is what is told of it, and else what it is by default. -/
theorem value_ofEnvironment {s : NumericSetting} (hs : s ∈ all) (env : Environment) :
    s.value (.ofEnvironment env) = (s.told? env).getD (s.value .default) := by
  simp only [all, List.mem_cons, List.not_mem_nil, or_false] at hs
  rcases hs with rfl | rfl | rfl | rfl | rfl | rfl | rfl | rfl | rfl | rfl | rfl | rfl
  · exact Environment.toNat_positiveWord _
  · exact Environment.val_epoch _
  · exact Environment.toNat_word _
  · exact Environment.toNat_halfWord _
  · exact Environment.toNat_word _
  · exact Environment.toNat_word _
  · exact Environment.toNat_word _
  · exact Environment.toNat_positiveWord _
  · exact Environment.toNat_positiveHalfWord _
  · exact Environment.toNat_word _
  · exact Environment.toNat_positiveWord _
  · exact Environment.toNat_positiveHalfWord _

/-- By default every setting is a number that it can be. -/
lemma allows_default {s : NumericSetting} (hs : s ∈ all) : s.Allows (s.value .default) := by
  have : ∀ s ∈ all, s.Allows (s.value .default) := by decide +kernel
  exact this s hs

/-- So it is in every environment. -/
lemma allows_ofEnvironment {s : NumericSetting} (hs : s ∈ all) (env : Environment) :
    s.Allows (s.value (.ofEnvironment env)) := by
  rw [value_ofEnvironment hs]
  cases htold : s.told? env with
  | none => exact allows_default hs
  | some n => exact (told?_eq_some_iff.mp htold).2

end NumericSetting

end SharedLog
