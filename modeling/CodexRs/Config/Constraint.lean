import CodexRs.Library.Run
import CodexRs.Files.Path

/-!
# Constrained settings

A setting has a validator, to which further ones are added, and may have a normalizer. A value is
normalized before it is validated and set, but not when it is only asked whether it can be set.
-/

namespace CodexRs.Config
open Text Machine Files List

inductive RequirementSource
  | unknown
  | mdmManagedPreferences (domain key : Str)
  | cloudRequirements
  | systemRequirementsToml (file : AbsolutePathBuf)
  | legacyManagedConfigTomlFromFile (file : AbsolutePathBuf)
  | legacyManagedConfigTomlFromMdm

inductive ConstraintError
  | invalidValue (fieldName candidate allowed : Str) (requirementSource : RequirementSource)
  | emptyField (fieldName : Str)
  | execPolicyParse (requirementSource : RequirementSource) (reason : Str)

variable {T : Type*}

abbrev ConstraintValidator (T : Type*) := T → Except ConstraintError Unit

structure Constrained (T : Type*) where
  value : T
  validator : ConstraintValidator T
  normalizer : Option (T → T)

namespace Constrained
variable (initialValue : T)

def new (validator : ConstraintValidator T) : Except ConstraintError (Constrained T) :=
  (validator initialValue).map fun _ => ⟨initialValue, validator, none⟩

def normalized (normalizer : T → T) : Except ConstraintError (Constrained T) :=
  .ok ⟨normalizer initialValue, fun _ => .ok (), some normalizer⟩

def allowAny : Constrained T := ⟨initialValue, fun _ => .ok (), none⟩

/-- The error shows values as they are shown for debugging. -/
def onlyValidator [BEq T] (debug : T → Str) (allowedValue : T) : ConstraintValidator T :=
  fun candidate =>
    if candidate == allowedValue then .ok ()
    else .error (.invalidValue "<unknown>".toList (debug candidate)
      ('[' :: debug allowedValue ++ [']']) .unknown)

def allowOnly [BEq T] (debug : T → Str) (onlyValue : T) : Constrained T :=
  ⟨onlyValue, onlyValidator debug onlyValue, none⟩

def combine (existing validator : ConstraintValidator T) : ConstraintValidator T :=
  fun candidate => (existing candidate).bind fun _ => validator candidate

variable (c : Constrained T)

def canSet (candidate : T) : Except ConstraintError Unit := c.validator candidate

def addValidator (validator : ConstraintValidator T) :
    Constrained T × Except ConstraintError Unit :=
  match combine c.validator validator c.value with
  | .ok () => ({ c with validator := combine c.validator validator }, .ok ())
  | .error e => (c, .error e)

def set (value : T) : Constrained T × Except ConstraintError Unit :=
  let value := c.normalizer.elim value (· value)
  match c.validator value with
  | .ok () => ({ c with value }, .ok ())
  | .error e => (c, .error e)

theorem combine_eq_ok {existing validator : ConstraintValidator T} {x : T} :
    combine existing validator x = .ok () ↔ existing x = .ok () ∧ validator x = .ok () := by
  cases h : existing x <;> simp [combine, h, Except.bind]

end Constrained

open Constrained

/-- A setting, and the validators that were installed. -/
structure Setting (T : Type*) where
  constrained : Constrained T
  installed : List (ConstraintValidator T)

inductive SettingCall (T : Type*)
  | addValidator (validator : ConstraintValidator T)
  | set (value : T)

namespace Setting

/-- A value that differs from itself is not allowed as the only one. -/
inductive Created [BEq T] (debug : T → Str) : Setting T → Prop
  | new {value : T} {validator : ConstraintValidator T} {c : Constrained T} :
      new value validator = .ok c → Created debug ⟨c, [validator]⟩
  | normalized {value : T} {normalizer : T → T} {c : Constrained T} :
      normalized value normalizer = .ok c → Created debug ⟨c, []⟩
  | allowAny (value : T) : Created debug ⟨.allowAny value, []⟩
  | allowOnly {value : T} : (value == value) = true →
      Created debug ⟨.allowOnly debug value, [onlyValidator debug value]⟩

def call (s : Setting T) : SettingCall T → Setting T × Except ConstraintError Unit
  | .addValidator validator =>
    match s.constrained.addValidator validator with
    | (c, .ok ()) => (⟨c, validator :: s.installed⟩, .ok ())
    | (c, .error e) => (⟨c, s.installed⟩, .error e)
  | .set value =>
    let (c, result) := s.constrained.set value
    (⟨c, s.installed⟩, result)

/-- Every installed validator accepts what it accepts once that is normalized. -/
def Normalized (s : Setting T) : Prop :=
  ∀ normalizer ∈ s.constrained.normalizer, ∀ validator ∈ s.installed, ∀ x,
    validator x = .ok () ↔ validator (normalizer x) = .ok ()

structure Sound (s : Setting T) : Prop where
  accepts : ∀ x, s.constrained.validator x = .ok () ↔ ∀ v ∈ s.installed, v x = .ok ()
  satisfied : s.constrained.validator s.constrained.value = .ok ()

variable {s : Setting T}

theorem Created.sound [BEq T] {debug : T → Str} (h : s.Created debug) : s.Sound := by
  cases h with
  | @new value validator c h =>
    rw [Constrained.new] at h
    cases hvalid : validator value <;> rw [hvalid] at h <;> cases h
    exact ⟨by simp, hvalid⟩
  | normalized h =>
    cases h
    exact ⟨by simp, rfl⟩
  | allowAny value => exact ⟨fun _ => ⟨nofun, fun _ => rfl⟩, rfl⟩
  | allowOnly heq => exact ⟨by simp [Constrained.allowOnly], if_pos heq⟩

theorem call_of_error {call : SettingCall T} {e : ConstraintError}
    (h : (s.call call).2 = .error e) : (s.call call).1 = s := by
  cases call with
  | addValidator validator =>
    revert h
    cases hvalid : combine s.constrained.validator validator s.constrained.value <;>
      simp [call, addValidator, hvalid]
  | set value =>
    revert h
    cases hvalid : s.constrained.validator (s.constrained.normalizer.elim value (· value)) <;>
      simp [call, Constrained.set, hvalid]

theorem Sound.call (h : s.Sound) (call : SettingCall T) : (s.call call).1.Sound := by
  cases call with
  | addValidator validator =>
    simp only [Setting.call, addValidator]
    cases hvalid : combine s.constrained.validator validator s.constrained.value with
    | error e => exact h
    | ok =>
      refine ⟨fun x => ?_, hvalid⟩
      simp [combine_eq_ok, h.accepts, and_comm]
  | set value =>
    simp only [Setting.call, Constrained.set]
    cases hvalid : s.constrained.validator (s.constrained.normalizer.elim value (· value)) with
    | error e => exact h
    | ok => exact ⟨h.accepts, hvalid⟩

end Setting

/-- The value passes the installed validators and a failing call changes nothing. Where a setting
with a normalizer has got only validators that accept a value exactly if they accept its normalized
form, what can be set is what is set. -/
theorem constraints_hold [BEq T] {debug : T → Str} {s₀ s : Setting T} {calls : List (SettingCall T)}
    (hcreated : s₀.Created debug) (hrun : Run (fun s call t => (s.call call).1 = t) s₀ calls s) :
    (∀ validator ∈ s.installed, validator s.constrained.value = .ok ()) ∧
      (∀ call e, (s.call call).2 = .error e → (s.call call).1 = s) ∧
      (s.Normalized → ∀ v, s.constrained.canSet v = .ok () ↔ (s.constrained.set v).2 = .ok ()) := by
  have h : s.Sound := by
    refine hrun.invariant (I := fun _ => Setting.Sound) ?_ hcreated.sound
    rintro call _ s _ hs rfl
    exact hs.call call
  refine ⟨(h.accepts _).mp h.satisfied, fun _ _ => Setting.call_of_error, fun hnormalized v => ?_⟩
  have hset : (s.constrained.set v).2 =
      s.constrained.validator (s.constrained.normalizer.elim v (· v)) := by
    simp only [Constrained.set]
    cases hvalid : s.constrained.validator (s.constrained.normalizer.elim v (· v)) <;> rfl
  rw [hset, canSet]
  cases hn : s.constrained.normalizer with
  | none => rfl
  | some normalizer =>
    rw [Option.elim_some, h.accepts, h.accepts]
    exact forall₂_congr fun validator hmem => hnormalized normalizer hn validator hmem v

def allowsZero : ConstraintValidator ℕ := onlyValidator (fun _ => []) 0

theorem constraints_hold_lastDigit : ∃ s : Setting ℕ, s.installed ≠ [] ∧ s.Normalized ∧
    ∀ v, s.constrained.canSet v = .ok () ↔ (s.constrained.set v).2 = .ok () := by
  let s₀ : Setting ℕ := ⟨⟨0, fun _ => .ok (), some (· % 10)⟩, []⟩
  have hnew : normalized 0 (· % 10) = .ok s₀.constrained := rfl
  have hcreated : s₀.Created fun _ => [] := .normalized hnew
  have hadded : (s₀.call (.addValidator fun v => allowsZero (v % 10))).1.Normalized := by
    rintro _ ⟨⟩ _ (_ | ⟨_, ⟨⟩⟩) v
    simp
  exact ⟨_, cons_ne_nil _ _, hadded, (constraints_hold hcreated (.single rfl)).2.2 hadded⟩

/-- The last digit is kept, and only zero is allowed: ten could be set. -/
theorem canSet_without_normalizer :
    let s := Setting.mk ⟨0, fun _ => .ok (), some (· % 10)⟩ []
    let c := (s.call (.addValidator allowsZero)).1.constrained
    normalized 0 (· % 10) = .ok s.constrained ∧
      (c.set 10).2 = .ok () ∧ c.canSet 10 ≠ .ok () :=
  ⟨rfl, rfl, nofun⟩

end CodexRs.Config
