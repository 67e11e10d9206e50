import Mathlib.Data.List.Basic

/-!
# Logs of items and acknowledgements

What is pending are the items that no later acknowledgement covers.
-/
namespace CodexRs.Outbox

inductive Entry (ι κ : Type*) where
  | put (item : ι)
  | ack (mark : κ)

variable {ι κ : Type*}

/-- The entry acknowledges the item. -/
def Entry.settles (covers : κ → ι → Bool) (item : ι) : Entry ι κ → Bool
  | .put _ => false
  | .ack mark => covers mark item

def pending (covers : κ → ι → Bool) : List (Entry ι κ) → List ι
  | [] => []
  | .put item :: rest =>
    if rest.any (Entry.settles covers item) then pending covers rest
    else item :: pending covers rest
  | .ack _ :: rest => pending covers rest

variable {covers : κ → ι → Bool} {log : List (Entry ι κ)}

theorem pending_concat_put (item : ι) :
    pending covers (log ++ [.put item]) = pending covers log ++ [item] := by
  induction log with
  | nil => rfl
  | cons entry log ih =>
    cases entry with
    | ack => exact ih
    | put first =>
      have hany : (log ++ [Entry.put item]).any (Entry.settles covers first) =
          log.any (Entry.settles covers first) := by
        simp [List.any_append, Entry.settles]
      simp only [List.cons_append, pending, hany, ih]
      split_ifs <;> rfl

theorem pending_concat_ack (mark : κ) :
    pending covers (log ++ [.ack mark]) = (pending covers log).filter (!covers mark ·) := by
  induction log with
  | nil => rfl
  | cons entry log ih =>
    cases entry with
    | ack => exact ih
    | put first =>
      have hany : (log ++ [Entry.ack mark]).any (Entry.settles covers first) =
          (log.any (Entry.settles covers first) || covers mark first) := by
        simp [List.any_append, Entry.settles]
      simp only [List.cons_append, pending, hany, ih]
      cases log.any (Entry.settles covers first) <;> cases hmark : covers mark first <;>
        simp [hmark]

end CodexRs.Outbox
