import CodexRs.Library.Table
import CodexRs.CodexApi.ChatStream

/-!
# Routing the fragments of tool calls

In a uniformly labelled stream all fragments carry the index of their call, or none does and each
carries its id or follows another one of the call. Then the tables hold, for every call, what its
own fragments say, and they hold the calls in the order of their first fragments.
-/
namespace CodexRs.CodexApi
open Text Function List Option ToolCalls

variable {κ : Type*}

abbrev Labelled (κ : Type*) := List (κ × Fragment)

/-- An id belongs to one call, and a call to one id. -/
def OwnIds (frags : Labelled κ) : Prop :=
  ∀ p ∈ frags, ∀ q ∈ frags, ∀ a ∈ p.2.id, ∀ b ∈ q.2.id, a = b ↔ p.1 = q.1

def LabelledByIndex (frags : Labelled κ) : Prop :=
  (∀ p ∈ frags, p.2.index.isSome = true) ∧
    (∀ p ∈ frags, ∀ q ∈ frags, p.2.index = q.2.index ↔ p.1 = q.1) ∧ OwnIds frags

def LabelledById (frags : Labelled κ) : Prop :=
  (∀ p ∈ frags, p.2.index = none) ∧ OwnIds frags ∧
    ∀ pre p post, frags = pre ++ p :: post → p.2.id = none → ∃ q ∈ pre.getLast?, q.1 = p.1

def routeAll (frags : Labelled κ) : ToolCalls := (frags.map Prod.snd).foldl route {}

variable {frags : Labelled κ} {φ : κ → ℕ} {t : ToolCalls} {c d : κ} {f : Fragment}

theorem OwnIds.of_concat (h : OwnIds (frags ++ [(c, f)])) : OwnIds frags :=
  fun p hp q hq => h p (mem_append_left _ hp) q (mem_append_left _ hq)

theorem LabelledByIndex.of_concat (h : LabelledByIndex (frags ++ [(c, f)])) :
    LabelledByIndex frags :=
  ⟨fun p hp => h.1 p (mem_append_left _ hp),
    fun p hp q hq => h.2.1 p (mem_append_left _ hp) q (mem_append_left _ hq),
    h.2.2.of_concat⟩

theorem LabelledById.of_concat (h : LabelledById (frags ++ [(c, f)])) : LabelledById frags := by
  refine ⟨fun p hp => h.1 p (mem_append_left _ hp), h.2.1.of_concat, ?_⟩
  intro pre p post heq
  exact h.2.2 pre p (post ++ [(c, f)]) (by simp [heq])

theorem routeAll_concat (frags : Labelled κ) (c : κ) (f : Fragment) :
    routeAll (frags ++ [(c, f)]) = (routeAll frags).route f := by
  simp [routeAll]

variable [DecidableEq κ]

/-- The calls in the order of their first fragments. -/
def callsOf (frags : Labelled κ) : List κ := (frags.map Prod.fst).eraseDups

def callFragments (c : κ) (frags : Labelled κ) : List Fragment :=
  (frags.filter fun p => p.1 = c).map Prod.snd

def callId (c : κ) (frags : Labelled κ) : Option Str :=
  ((callFragments c frags).filterMap Fragment.id).head?

/-- The first name of a call that is not empty. -/
def callName (c : κ) (frags : Labelled κ) : Option Str :=
  ((callFragments c frags).filterMap fun f => f.name.filter (· ≠ [])).head?

def callArguments (c : κ) (frags : Labelled κ) : Str :=
  (callFragments c frags).flatMap fun f => f.arguments.getD []

/-- What the fragments of a call add up to. -/
def callState (c : κ) (frags : Labelled κ) : ToolCallState :=
  ⟨callId c frags, callName c frags, callArguments c frags⟩

section
variable (frags c d f)

theorem callsOf_concat : callsOf (frags ++ [(d, f)]) =
      if d ∈ frags.map Prod.fst then callsOf frags else callsOf frags ++ [d] := by
  have hsingle : [d].eraseDups = [d] := by simp [eraseDups_cons]
  rw [callsOf, map_append, eraseDups_append, map_cons, map_nil, removeAll]
  by_cases h : d ∈ frags.map Prod.fst
  · rw [if_pos h, filter_cons_of_neg (by simpa using h)]
    simp [callsOf]
  · rw [if_neg h, filter_cons_of_pos (by simpa using h), filter_nil, hsingle, callsOf]

theorem callFragments_concat_self :
    callFragments d (frags ++ [(d, f)]) = callFragments d frags ++ [f] := by
  simp [callFragments]

theorem callFragments_concat_ne (h : c ≠ d) :
    callFragments c (frags ++ [(d, f)]) = callFragments c frags := by
  simp [callFragments, Ne.symm h]

theorem head?_filterMap_concat {α β : Type*} (g : α → Option β) (l : List α) (a : α) :
    ((l ++ [a]).filterMap g).head? = (l.filterMap g).head?.or (g a) := by
  cases h : g a <;> simp [h]

theorem callState_concat_self :
    callState d (frags ++ [(d, f)]) = ToolCalls.addFragment (callState d frags) f := by
  simp only [callState, ToolCalls.addFragment, callId, callName, callArguments,
    callFragments_concat_self, head?_filterMap_concat, flatMap_append, flatMap_cons,
    flatMap_nil, append_nil]

theorem callState_concat_ne (h : c ≠ d) : callState c (frags ++ [(d, f)]) = callState c frags := by
  simp only [callState, callId, callName, callArguments, callFragments_concat_ne frags c d f h]

end

theorem mem_callsOf : c ∈ callsOf frags ↔ ∃ p ∈ frags, p.1 = c := by
  rw [callsOf, mem_eraseDups, List.mem_map]

theorem skipUsed_congr {u v : ℕ → Bool} {fuel n : ℕ} (h : ∀ m, n ≤ m → u m = v m) :
    skipUsed u fuel n = skipUsed v fuel n := by
  induction fuel generalizing n with
  | zero => rfl
  | succ fuel ih =>
    rw [skipUsed, skipUsed, h n le_rfl, ih fun m hm => h m (Nat.le_of_succ_le hm)]

theorem le_skipUsed (u : ℕ → Bool) (fuel n : ℕ) : n ≤ skipUsed u fuel n := by
  induction fuel generalizing n with
  | zero => exact le_rfl
  | succ fuel ih =>
    rw [skipUsed]
    split_ifs
    · exact Nat.le_of_succ_le (ih (n + 1))
    · exact le_rfl

/-- With as much fuel as there are used numbers, an unused one is found. -/
theorem skipUsed_not_mem (keys : List ℕ) (n : ℕ) {fuel : ℕ} (h : keys.length ≤ fuel) :
    skipUsed (fun i => decide (i ∈ keys)) fuel n ∉ keys := by
  induction fuel generalizing n keys with
  | zero =>
    have hkeys : keys = [] := length_eq_zero_iff.mp (Nat.le_zero.mp h)
    simp [hkeys]
  | succ fuel ih =>
    rw [skipUsed]
    by_cases hn : n ∈ keys
    · have hshort : (keys.filter (· ≠ n)).length ≤ fuel := by
        have hlt := (length_filter_lt_length_iff_exists (p := fun i => decide (i ≠ n))).mpr
          ⟨n, hn, by simp⟩
        exact Nat.le_of_lt_succ (lt_of_lt_of_le hlt h)
      have hcongr : skipUsed (fun i => decide (i ∈ keys)) fuel (n + 1) =
          skipUsed (fun i => decide (i ∈ keys.filter (· ≠ n))) fuel (n + 1) := by
        apply skipUsed_congr
        intro m hm
        have hne : m ≠ n := by omega
        simp [hne]
      have hfree := ih (keys.filter (· ≠ n)) (n + 1) hshort
      have hge := le_skipUsed (fun i => decide (i ∈ keys)) fuel (n + 1)
      rw [if_pos (by simpa using hn)]
      intro hmem
      rw [← hcongr] at hfree
      have hne : skipUsed (fun i => decide (i ∈ keys)) fuel (n + 1) ≠ n := by omega
      exact hfree (mem_filter.mpr ⟨hmem, by simpa using hne⟩)
    · rwa [if_neg (by simpa using hn)]

theorem lookup_freeIndex (t : ToolCalls) : t.calls.lookup t.freeIndex = none := by
  have hused : (fun i => (t.calls.lookup i).isSome) = fun i => decide (i ∈ t.calls.keys) := by
    funext i
    rw [Bool.eq_iff_iff, AList.lookup_isSome, decide_eq_true_iff, AList.mem_keys]
  have hfree := skipUsed_not_mem t.calls.keys t.nextIndex le_rfl
  rw [AList.lookup_eq_none, ToolCalls.freeIndex, hused]
  exact hfree

/-- The tables hold the fragments read so far, with `φ` as the indices of the calls. -/
structure Routed (frags : Labelled κ) (φ : κ → ℕ) (t : ToolCalls) : Prop where
  injective : ∀ c ∈ callsOf frags, ∀ d ∈ callsOf frags, φ c = φ d → c = d
  order : t.order = (callsOf frags).map φ
  orderSeen : ∀ i, i ∈ t.orderSeen ↔ i ∈ (callsOf frags).map φ
  calls : ∀ c ∈ callsOf frags, t.calls.lookup (φ c) = some (callState c frags)
  unused : ∀ i, i ∉ (callsOf frags).map φ → t.calls.lookup i = none
  ids : ∀ p ∈ frags, ∀ id ∈ p.2.id, t.indexById.lookup id = some (φ p.1)
  knownIds : ∀ id i, t.indexById.lookup id = some i → ∃ p ∈ frags, p.2.id = some id
  lastIndex : t.lastIndex = frags.getLast?.map fun p => φ p.1

namespace Routed
variable {i : ℕ}

theorem callState_of_not_mem (h : c ∉ callsOf frags) : callState c frags = {} := by
  have hnone : callFragments c frags = [] := by
    rw [callFragments, map_eq_nil_iff, filter_eq_nil_iff]
    intro p hp
    simpa using fun hpc => h (mem_callsOf.mpr ⟨p, hp, hpc⟩)
  simp [callState, callId, callName, callArguments, hnone]

theorem map_update (hseen : c ∈ callsOf frags → i = φ c) :
    (callsOf frags).map (update φ c i) = (callsOf frags).map φ := by
  apply map_congr_left
  intro d hd
  by_cases hdc : d = c
  · subst hdc
    rw [update_self, hseen hd]
  · rw [update_of_ne hdc]

theorem map_callsOf_concat (hseen : c ∈ callsOf frags → i = φ c) :
    (callsOf (frags ++ [(c, f)])).map (update φ c i) =
      if c ∈ callsOf frags then (callsOf frags).map φ else (callsOf frags).map φ ++ [i] := by
  have hmem : c ∈ frags.map Prod.fst ↔ c ∈ callsOf frags := by rw [mem_callsOf, List.mem_map]
  rw [callsOf_concat]
  by_cases hc : c ∈ callsOf frags
  · rw [if_pos (hmem.mpr hc), if_pos hc, map_update hseen]
  · rw [if_neg (mt hmem.mp hc), if_neg hc, map_append, map_update hseen]
    simp

theorem lookup_registerId (indexById : AList fun _ : Str => ℕ) (new : Option Str) (id : Str) :
    (registerId indexById new i).lookup id =
      if new = some id ∧ indexById.lookup id = none then some i else indexById.lookup id := by
  unfold registerId
  grind

theorem mem_callsOf_concat {d : κ} :
    d ∈ callsOf (frags ++ [(c, f)]) ↔ d ∈ callsOf frags ∨ d = c := by
  simp only [mem_callsOf, mem_append, mem_singleton, or_and_right, exists_or, exists_eq_left]
  exact or_congr_right eq_comm

/-- The index of a fragment's call: known, or not used yet. -/
structure Target (frags : Labelled κ) (φ : κ → ℕ) (c : κ) (i : ℕ) : Prop where
  seen : c ∈ callsOf frags → i = φ c
  new : c ∉ callsOf frags → i ∉ (callsOf frags).map φ

/-- A known id leads to the call it belongs to. -/
theorem known_id (h : Routed frags φ t) (hown : OwnIds (frags ++ [(c, f)])) {id : Str}
    (hid : f.id = some id) {j : ℕ} (hj : t.indexById.lookup id = some j) :
    c ∈ callsOf frags ∧ j = φ c := by
  obtain ⟨p, hp, hpid⟩ := h.knownIds id j hj
  have hpc : p.1 = c := (hown p (mem_append_left _ hp) (c, f) (by simp) id hpid id hid).mp rfl
  have hids := h.ids p hp id hpid
  rw [hj, hpc, some.injEq] at hids
  exact ⟨mem_callsOf.mpr ⟨p, hp, hpc⟩, hids⟩

namespace Target

variable (hi : Target frags φ c i)
include hi

theorem update_of_mem {d : κ} (hd : d ∈ callsOf frags) : update φ c i d = φ d :=
  map_inj_left.mp (map_update hi.seen) d hd

variable (h : Routed frags φ t)
include h

theorem ne {d : κ} (hd : d ∈ callsOf frags) (hne : d ≠ c) : φ d ≠ i := by
  intro heq
  by_cases hc : c ∈ callsOf frags
  · exact hne (h.injective d hd c hc (heq.trans (hi.seen hc)))
  · exact hi.new hc (mem_map.mpr ⟨d, hd, heq⟩)

theorem mem_orderSeen : i ∈ t.orderSeen ↔ c ∈ callsOf frags := by
  rw [h.orderSeen]
  constructor
  · intro hmem
    by_contra hc
    exact hi.new hc hmem
  · intro hc
    exact mem_map.mpr ⟨c, hc, (hi.seen hc).symm⟩

theorem lookup_getD : (t.calls.lookup i).getD {} = callState c frags := by
  by_cases hc : c ∈ callsOf frags
  · rw [hi.seen hc, h.calls c hc, getD_some]
  · rw [h.unused i (hi.new hc), getD_none, callState_of_not_mem hc]

theorem injective : ∀ d ∈ callsOf (frags ++ [(c, f)]), ∀ e ∈ callsOf (frags ++ [(c, f)]),
      update φ c i d = update φ c i e → d = e := by
  intro d hd e he heq
  have hd := mem_callsOf_concat.mp hd
  have he := mem_callsOf_concat.mp he
  have hne := fun d => @hi.ne _ _ _ _ _ _ _ h d
  have hinjective := h.injective
  grind

theorem lookup_id (hown : OwnIds (frags ++ [(c, f)])) {id : Str} (hid : f.id = some id) :
    (registerId t.indexById f.id i).lookup id = some i := by
  rw [lookup_registerId]
  cases hl : t.indexById.lookup id with
  | none => rw [if_pos ⟨hid, rfl⟩]
  | some j =>
    obtain ⟨hc, rfl⟩ := h.known_id hown hid hl
    rw [if_neg (by simp), hi.seen hc]

end Target

theorem addAt (h : Routed frags φ t) (hown : OwnIds (frags ++ [(c, f)])) (hi : Target frags φ c i) :
    Routed (frags ++ [(c, f)]) (update φ c i) (t.addAt i f) := by
  have hmap := map_callsOf_concat (f := f) hi.seen
  have hseen := hi.mem_orderSeen h
  constructor
  case injective => exact hi.injective h
  case order =>
    rw [hmap]
    simp only [ToolCalls.addAt, hseen, h.order]
  case orderSeen =>
    intro j
    rw [hmap]
    simp only [ToolCalls.addAt, hseen]
    by_cases hc : c ∈ callsOf frags
    · simpa [hc] using h.orderSeen j
    · simp only [hc, if_false, mem_cons, mem_append, h.orderSeen j, not_mem_nil, or_false]
      exact or_comm
  case calls =>
    intro d hd
    by_cases hdc : d = c
    · subst hdc
      rw [update_self, addAt, AList.lookup_insert, hi.lookup_getD h, callState_concat_self]
    · have hmem := (mem_callsOf_concat.mp hd).resolve_right hdc
      rw [update_of_ne hdc, ToolCalls.addAt, AList.lookup_insert_ne (hi.ne h hmem hdc),
        h.calls d hmem, callState_concat_ne frags d c f hdc]
  case unused =>
    intro j hj
    have hji : j ≠ i := by
      rintro rfl
      exact hj (mem_map.mpr ⟨c, mem_callsOf_concat.mpr (.inr rfl), update_self ..⟩)
    rw [ToolCalls.addAt, AList.lookup_insert_ne hji]
    apply h.unused
    intro hmem
    apply hj
    rw [hmap]
    split_ifs
    · exact hmem
    · exact mem_append_left _ hmem
  case ids =>
    intro p hp id hid
    rcases mem_append.mp hp with hp | hp
    · rw [hi.update_of_mem (mem_callsOf.mpr ⟨p, hp, rfl⟩)]
      rw [ToolCalls.addAt, lookup_registerId, h.ids p hp id hid, if_neg (by simp)]
    · rw [mem_singleton.mp hp] at hid ⊢
      rw [update_self]
      exact hi.lookup_id h hown hid
  case knownIds =>
    intro id j hj
    rw [ToolCalls.addAt, lookup_registerId] at hj
    split_ifs at hj with hid
    · exact ⟨(c, f), by simp, hid.1⟩
    · obtain ⟨p, hp, hpid⟩ := h.knownIds id j hj
      exact ⟨p, mem_append_left _ hp, hpid⟩
  case lastIndex => simp [ToolCalls.addAt]

theorem nextIndex (h : Routed frags φ t) (n : ℕ) : Routed frags φ { t with nextIndex := n } :=
  ⟨h.injective, h.order, h.orderSeen, h.calls, h.unused, h.ids, h.knownIds, h.lastIndex⟩

theorem target_of_mem (hc : c ∈ callsOf frags) : Target frags φ c (φ c) :=
  ⟨fun _ => rfl, fun hnot => absurd hc hnot⟩

theorem target_freeIndex (h : Routed frags φ t) (hc : c ∉ callsOf frags) :
    Target frags φ c t.freeIndex := by
  refine ⟨fun hmem => absurd hmem hc, fun _ hmem => ?_⟩
  obtain ⟨d, hd, heq⟩ := mem_map.mp hmem
  have hsome := h.calls d hd
  rw [heq, lookup_freeIndex] at hsome
  cases hsome

end Routed

theorem routed_nil (φ : κ → ℕ) : Routed [] φ {} := by
  constructor <;> simp [callsOf]

/-- Without indices, every call has a fragment with an id. -/
theorem LabelledById.exists_id (h : LabelledById frags) (hc : c ∈ callsOf frags) :
    ∃ p ∈ frags, p.1 = c ∧ ∃ id, p.2.id = some id := by
  induction frags using reverseRecOn generalizing c with
  | nil => simp [callsOf] at hc
  | append_singleton frags last ih =>
    obtain ⟨d, f⟩ := last
    have hold : c ∈ callsOf frags → ∃ p ∈ frags ++ [(d, f)], p.1 = c ∧ ∃ id, p.2.id = some id := by
      intro hmem
      obtain ⟨p, hp, hpc⟩ := ih h.of_concat hmem
      exact ⟨p, mem_append_left _ hp, hpc⟩
    rcases Routed.mem_callsOf_concat.mp hc with hmem | rfl
    · exact hold hmem
    · cases hid : f.id with
      | some id => exact ⟨(c, f), by simp, rfl, id, hid⟩
      | none =>
        obtain ⟨q, hq, hqc⟩ := h.2.2 frags (c, f) [] rfl hid
        exact hold (mem_callsOf.mpr ⟨q, mem_of_getLast? hq, hqc⟩)

theorem route_byIndex (h : Routed frags φ t) (hφ : ∀ p ∈ frags, p.2.index = some (φ p.1))
    (hl : LabelledByIndex (frags ++ [(c, f)])) :
    ∃ i, f.index = some i ∧ Routed.Target frags φ c i ∧ t.route f = t.addAt i f := by
  obtain ⟨hsome, hindex, hown⟩ := hl
  have hlast : (c, f) ∈ frags ++ [(c, f)] := by simp
  obtain ⟨i, hi⟩ : ∃ i, f.index = some i := isSome_iff_exists.mp (hsome _ hlast)
  have hsame : ∀ p ∈ frags, p.1 = c ↔ φ p.1 = i := by
    intro p hp
    have h := hindex p (mem_append_left _ hp) _ hlast
    rw [hφ p hp, hi, some.injEq] at h
    exact h.symm
  have htarget : Routed.Target frags φ c i := by
    constructor
    · intro hc
      obtain ⟨p, hp, hpc⟩ := mem_callsOf.mp hc
      rw [← (hsame p hp).mp hpc, hpc]
    · intro hc hmem
      obtain ⟨d, hd, heq⟩ := mem_map.mp hmem
      obtain ⟨p, hp, hpd⟩ := mem_callsOf.mp hd
      exact hc (mem_callsOf.mpr ⟨p, hp, (hsame p hp).mpr (hpd ▸ heq)⟩)
  have hnamed : t.namedIndex f = some i := by
    cases hid : f.id with
    | none => simp [namedIndex, hid, hi]
    | some id =>
      cases hj : t.indexById.lookup id with
      | none => simp [namedIndex, hid, hj, hi]
      | some j =>
        obtain ⟨hc, hjφ⟩ := h.known_id hown hid hj
        simp [namedIndex, hid, hj, hjφ, htarget.seen hc]
  exact ⟨i, hi, htarget, by rw [route, hnamed]⟩

theorem route_byId (h : Routed frags φ t) (hl : LabelledById (frags ++ [(c, f)])) :
    ∃ i n, Routed.Target frags φ c i ∧ t.route f = { t with nextIndex := n }.addAt i f := by
  have hindex : f.index = none := hl.1 (c, f) (by simp)
  have hown := hl.2.1
  cases hid : f.id with
  | none =>
    obtain ⟨q, hq, hqc⟩ := hl.2.2 frags (c, f) [] rfl hid
    have hc : c ∈ callsOf frags := mem_callsOf.mpr ⟨q, mem_of_getLast? hq, hqc⟩
    have hlast : t.lastIndex = some (φ c) := by
      rw [h.lastIndex, mem_def.mp hq]
      exact congrArg (fun d => some (φ d)) hqc
    have hnamed : t.namedIndex f = some (φ c) := by
      simp [namedIndex, hid, hindex, hlast]
    exact ⟨φ c, t.nextIndex, Routed.target_of_mem hc, by rw [route, hnamed]⟩
  | some id =>
    cases hj : t.indexById.lookup id with
    | some j =>
      obtain ⟨hc, hjφ⟩ := h.known_id hown hid hj
      have hnamed : t.namedIndex f = some (φ c) := by
        simp [namedIndex, hid, hj, hjφ]
      exact ⟨φ c, t.nextIndex, Routed.target_of_mem hc, by rw [route, hnamed]⟩
    | none =>
      have hc : c ∉ callsOf frags := by
        intro hc
        obtain ⟨p, hp, hpc, id', hpid⟩ := hl.of_concat.exists_id hc
        have heq : id' = id :=
          (hown p (mem_append_left _ hp) (c, f) (by simp) id' hpid id hid).mpr hpc
        have hids := h.ids p hp id' hpid
        rw [heq, hj] at hids
        cases hids
      exact ⟨t.freeIndex, t.freeIndex + 1, h.target_freeIndex hc,
        by simp [route, namedIndex, hid, hj, hindex]⟩

theorem routed_byIndex (h : LabelledByIndex frags) :
    ∃ φ, Routed frags φ (routeAll frags) ∧ ∀ p ∈ frags, p.2.index = some (φ p.1) := by
  induction frags using reverseRecOn with
  | nil => exact ⟨fun _ => 0, routed_nil _, by simp⟩
  | append_singleton frags last ih =>
    obtain ⟨c, f⟩ := last
    obtain ⟨φ, hrouted, hφ⟩ := ih h.of_concat
    obtain ⟨i, hi, htarget, hroute⟩ := route_byIndex hrouted hφ h
    refine ⟨update φ c i, ?_, ?_⟩
    · rw [routeAll_concat, hroute]
      exact hrouted.addAt h.2.2 htarget
    · intro p hp
      rcases mem_append.mp hp with hp | hp
      · rw [htarget.update_of_mem (mem_callsOf.mpr ⟨p, hp, rfl⟩), hφ p hp]
      · rw [mem_singleton.mp hp, update_self, hi]

theorem routed_byId (h : LabelledById frags) : ∃ φ, Routed frags φ (routeAll frags) := by
  induction frags using reverseRecOn with
  | nil => exact ⟨fun _ => 0, routed_nil _⟩
  | append_singleton frags last ih =>
    obtain ⟨c, f⟩ := last
    obtain ⟨φ, hrouted⟩ := ih h.of_concat
    obtain ⟨i, n, htarget, hroute⟩ := route_byId hrouted h
    refine ⟨update φ c i, ?_⟩
    rw [routeAll_concat, hroute]
    exact (hrouted.nextIndex n).addAt h.2.1 htarget

/-- However the fragments are interleaved, each call collects its own. -/
theorem routed_of_labelled (h : LabelledByIndex frags ∨ LabelledById frags) :
    ∃ φ, Routed frags φ (routeAll frags) := by
  rcases h with hindex | hid
  · obtain ⟨φ, hrouted, -⟩ := routed_byIndex hindex
    exact ⟨φ, hrouted⟩
  · exact routed_byId hid

end CodexRs.CodexApi
