import Mathlib.Data.List.Induction
import Mathlib.Data.List.Nodup

/-!
# Ledgers of acquired and released resources

A call acquires resources one after the other; when it cannot get the next one it releases what
it has. Its ledger lists both in the order in which they happen.

* `Settled log`: everything acquired is released exactly once, afterwards, and nothing else is.
* `Phases log as rs`: the call first acquires `as` and then releases `rs`, which is how calls that
  jump to their cleanup look. Ledgers of the parts of a call are put together with
  `Phases.append`, `Phases.release` and `Phases.map`.
* `Undone log as`: what is released in the end is what was acquired, in some order. A call around
  it that acquires one thing more and releases it last is undone too, `Undone.wrap`.
* `balance held log`: what is held after the ledger of a whole life, if nothing in it is acquired
  twice or released without being held. A settled part of it changes nothing, `Settled.balance`.
-/

universe u v

namespace Ledger

variable {ρ : Type u} {σ : Type v}

inductive Entry (ρ : Type u)
  | acquire (r : ρ)
  | release (r : ρ)
  deriving DecidableEq, Repr

namespace Entry

def acquired? : Entry ρ → Option ρ
  | .acquire r => some r
  | .release _ => none

def released? : Entry ρ → Option ρ
  | .acquire _ => none
  | .release r => some r

/-- The entry under another name of the resource. -/
def map (f : ρ → σ) : Entry ρ → Entry σ
  | .acquire r => .acquire (f r)
  | .release r => .release (f r)

end Entry

/-- What is acquired, in this order. -/
def acquired (log : List (Entry ρ)) : List ρ := log.filterMap Entry.acquired?

/-- What is released, in this order. -/
def released (log : List (Entry ρ)) : List ρ := log.filterMap Entry.released?

@[simp] theorem acquired_append (front rest : List (Entry ρ)) :
    acquired (front ++ rest) = acquired front ++ acquired rest := List.filterMap_append ..

@[simp] theorem released_append (front rest : List (Entry ρ)) :
    released (front ++ rest) = released front ++ released rest := List.filterMap_append ..

@[simp] theorem acquired_nil : acquired ([] : List (Entry ρ)) = [] := rfl

@[simp] theorem released_nil : released ([] : List (Entry ρ)) = [] := rfl

@[simp] theorem acquired_acquire (r : ρ) (log : List (Entry ρ)) :
    acquired (.acquire r :: log) = r :: acquired log := rfl

@[simp] theorem acquired_release (r : ρ) (log : List (Entry ρ)) :
    acquired (.release r :: log) = acquired log := rfl

@[simp] theorem released_acquire (r : ρ) (log : List (Entry ρ)) :
    released (.acquire r :: log) = released log := rfl

@[simp] theorem released_release (r : ρ) (log : List (Entry ρ)) :
    released (.release r :: log) = r :: released log := rfl

/-- Everything acquired is released exactly once, and nothing is released that is not there. -/
structure Settled (log : List (Entry ρ)) : Prop where
  nodup : (acquired log).Nodup
  perm : (released log).Perm (acquired log)
  order : ∀ front r rest, log = front ++ .release r :: rest → r ∈ acquired front

theorem mem_released {log : List (Entry ρ)} {r : ρ} :
    r ∈ released log ↔ ∃ front rest, log = front ++ .release r :: rest := by
  constructor
  · intro h
    obtain ⟨e, he, her⟩ := List.mem_filterMap.mp h
    cases e with
    | acquire a => cases her
    | release a =>
      obtain rfl := Option.some.inj her
      exact List.append_of_mem he
  · rintro ⟨front, rest, rfl⟩
    exact List.mem_filterMap.mpr ⟨.release r, by simp, rfl⟩

theorem acquired_map (f : ρ → σ) (log : List (Entry ρ)) :
    acquired (log.map (Entry.map f)) = (acquired log).map f := by
  rw [acquired, acquired, List.filterMap_map, List.map_filterMap]
  refine congrArg (List.filterMap · log) (funext fun e => ?_)
  cases e <;> rfl

theorem released_map (f : ρ → σ) (log : List (Entry ρ)) :
    released (log.map (Entry.map f)) = (released log).map f := by
  rw [released, released, List.filterMap_map, List.map_filterMap]
  refine congrArg (List.filterMap · log) (funext fun e => ?_)
  cases e <;> rfl

/-- The same call under other names of its resources. -/
theorem Settled.map {log : List (Entry ρ)} (h : Settled log) {f : ρ → σ}
    (hf : Function.Injective f) : Settled (log.map (Entry.map f)) := by
  refine ⟨?_, ?_, fun front r rest hlog => ?_⟩
  · rw [acquired_map]
    exact h.nodup.map hf
  · rw [acquired_map, released_map]
    exact h.perm.map f
  · obtain ⟨front, tail, rfl, rfl, htail⟩ := List.map_eq_append_iff.mp hlog
    obtain ⟨e, rest, rfl, he, -⟩ := List.map_eq_cons_iff.mp htail
    cases e with
    | acquire a => cases he
    | release a =>
      obtain rfl := Entry.release.inj he
      rw [acquired_map]
      exact List.mem_map_of_mem (h.order front a rest rfl)

/-- First `as` are acquired, then `rs` are released. -/
def Phases (log : List (Entry ρ)) (as rs : List ρ) : Prop :=
  log = as.map .acquire ++ rs.map .release

namespace Phases

variable {log log' : List (Entry ρ)} {as as' rs rs' : List ρ}

theorem acquires (as : List ρ) : Phases (as.map .acquire) as [] := (List.append_nil _).symm

/-- More is done before anything was released. -/
theorem append (h : Phases log as []) (h' : Phases log' as' rs') :
    Phases (log ++ log') (as ++ as') rs' := by
  unfold Phases at h h' ⊢
  rw [h, h', List.map_append, List.map_nil, List.append_nil, List.append_assoc]

/-- More is released. -/
theorem release (h : Phases log as rs) (rs' : List ρ) :
    Phases (log ++ rs'.map .release) as (rs ++ rs') := by
  unfold Phases at h ⊢
  rw [h, List.map_append, List.append_assoc]

/-- The resources of a part of the call are some of those of the whole call. -/
theorem map (h : Phases log as rs) (f : ρ → σ) :
    Phases (log.map (Entry.map f)) (as.map f) (rs.map f) := by
  unfold Phases at h ⊢
  rw [h, List.map_append]
  simp only [List.map_map]
  rfl

theorem acquired_eq (h : Phases log as rs) : acquired log = as := by
  have hrs : (rs.map Entry.release).filterMap Entry.acquired? = [] := by
    simp [List.filterMap_map, Function.comp_def, Entry.acquired?]
  have has : (as.map Entry.acquire).filterMap Entry.acquired? = as := by
    simp [List.filterMap_map, Function.comp_def, Entry.acquired?]
  unfold Phases at h
  rw [acquired, h, List.filterMap_append, has, hrs, List.append_nil]

theorem released_eq (h : Phases log as rs) : released log = rs := by
  have hrs : (rs.map Entry.release).filterMap Entry.released? = rs := by
    simp [List.filterMap_map, Function.comp_def, Entry.released?]
  have has : (as.map Entry.acquire).filterMap Entry.released? = [] := by
    simp [List.filterMap_map, Function.comp_def, Entry.released?]
  unfold Phases at h
  rw [released, h, List.filterMap_append, has, hrs, List.nil_append]

/-- Whatever stands before a release, all acquisitions do. -/
theorem acquired_front (h : Phases log as rs) {front rest : List (Entry ρ)} {r : ρ}
    (hlog : log = front ++ .release r :: rest) : acquired front = as := by
  have hfront := h.acquired_eq
  rw [hlog, acquired, List.filterMap_append] at hfront
  -- nothing is acquired behind the release
  have hrest : (Entry.release r :: rest).filterMap Entry.acquired? = [] := by
    unfold Phases at h
    rw [hlog] at h
    rcases List.append_eq_append_iff.mp h with ⟨mid, hmid, htail⟩ | ⟨mid, -, htail⟩
    · cases mid with
      | nil =>
        rw [List.nil_append] at htail
        rw [htail]
        simp [List.filterMap_map, Function.comp_def, Entry.acquired?]
      | cons e mid =>
        have he : e = .release r := (List.cons.inj htail).1.symm
        have hmem : Entry.release r ∈ as.map Entry.acquire := by
          rw [hmid, he]
          simp
        obtain ⟨a, -, ha⟩ := List.mem_map.mp hmem
        cases ha
    · have hsub : ∀ e ∈ Entry.release r :: rest, e ∈ rs.map Entry.release := by
        intro e he
        rw [htail]
        exact List.mem_append_right _ he
      refine List.filterMap_eq_nil_iff.mpr fun e he => ?_
      obtain ⟨q, -, hq⟩ := List.mem_map.mp (hsub e he)
      rw [← hq]
      rfl
  rw [hrest, List.append_nil] at hfront
  exact hfront

/-- A call that releases what it has acquired leaves nothing behind. -/
theorem settled (h : Phases log as rs) (hnodup : as.Nodup) (hperm : rs.Perm as) :
    Settled log := by
  refine ⟨h.acquired_eq ▸ hnodup, ?_, ?_⟩
  · rw [h.acquired_eq, h.released_eq]
    exact hperm
  · intro front r rest hlog
    rw [h.acquired_front hlog]
    refine hperm.subset ?_
    rw [← h.released_eq, hlog, released, List.filterMap_append]
    exact List.mem_append_right _ (List.mem_cons_self ..)

end Phases

/-- The resources `as` are acquired and then released in some order. -/
def Undone (log : List (Entry ρ)) (as : List ρ) : Prop :=
  as.Nodup ∧ ∃ rs, Phases log as rs ∧ rs.Perm as

namespace Undone

variable {log : List (Entry ρ)} {as : List ρ}

theorem nil : Undone ([] : List (Entry ρ)) [] := ⟨List.nodup_nil, [], rfl, .refl _⟩

/-- One resource more, released last. -/
theorem wrap (h : Undone log as) {x : ρ} (hx : x ∉ as) :
    Undone (.acquire x :: log ++ [.release x]) (x :: as) := by
  obtain ⟨hnodup, rs, hlog, hperm⟩ := h
  refine ⟨List.nodup_cons.mpr ⟨hx, hnodup⟩, rs ++ [x], ?_, ?_⟩
  · exact ((Phases.acquires [x]).append hlog).release [x]
  · exact List.perm_append_comm.trans (hperm.cons x)

theorem map (h : Undone log as) {f : ρ → σ} (hf : Function.Injective f) :
    Undone (log.map (Entry.map f)) (as.map f) := by
  obtain ⟨hnodup, rs, hlog, hperm⟩ := h
  exact ⟨hnodup.map hf, rs.map f, hlog.map f, hperm.map f⟩

theorem settled (h : Undone log as) : Settled log := by
  obtain ⟨hnodup, rs, hlog, hperm⟩ := h
  exact hlog.settled hnodup hperm

end Undone

/-! ## The ledger of a whole life -/

section Balance

variable [DecidableEq ρ] {held : ρ → Bool} {log front rest : List (Entry ρ)} {as rs : List ρ}

/-- One entry. A resource cannot be acquired while it is held, or released while it is not. -/
def Entry.apply (held : ρ → Bool) : Entry ρ → Option (ρ → Bool)
  | .acquire r => if held r then none else some (Function.update held r true)
  | .release r => if held r then some (Function.update held r false) else none

/-- What is held after the ledger if `held` is held before. -/
def balance (held : ρ → Bool) : List (Entry ρ) → Option (ρ → Bool)
  | [] => some held
  | e :: log => (e.apply held).bind fun held' => balance held' log

theorem balance_append :
    balance held (front ++ rest) = (balance held front).bind fun held' => balance held' rest := by
  induction front generalizing held with
  | nil => rfl
  | cons e front ih =>
    rw [List.cons_append, balance, balance, Option.bind_assoc]
    simp only [ih]

theorem balance_concat {mid : ρ → Bool} {e : Entry ρ} (h : balance held front = some mid) :
    balance held (front ++ [e]) = e.apply mid := by
  rw [balance_append, h, Option.bind_some, balance]
  exact Option.bind_fun_some (e.apply mid)

/-- Resources that are not held are acquired. -/
theorem balance_acquires (hnodup : as.Nodup) (hfresh : ∀ r ∈ as, held r = false) :
    balance held (as.map .acquire) = some fun r => held r || decide (r ∈ as) := by
  induction as generalizing held with
  | nil => simp [balance]
  | cons a as ih =>
    obtain ⟨ha, hnodup⟩ := List.nodup_cons.mp hnodup
    have hrest : ∀ r ∈ as, Function.update held a true r = false := by
      intro r hr
      have hne : r ≠ a := fun hra => ha (hra ▸ hr)
      rw [Function.update_of_ne hne]
      exact hfresh r (List.mem_cons_of_mem _ hr)
    rw [List.map_cons, balance, Entry.apply, if_neg (by simp [hfresh a List.mem_cons_self]),
      Option.bind_some, ih hnodup hrest]
    refine congrArg some (funext fun r => ?_)
    by_cases hra : r = a <;> simp [hra]

/-- Resources that are held are released. -/
theorem balance_releases (hnodup : rs.Nodup) (hheld : ∀ r ∈ rs, held r = true) :
    balance held (rs.map .release) = some fun r => held r && !decide (r ∈ rs) := by
  induction rs generalizing held with
  | nil => simp [balance]
  | cons a rs ih =>
    obtain ⟨ha, hnodup⟩ := List.nodup_cons.mp hnodup
    have hrest : ∀ r ∈ rs, Function.update held a false r = true := by
      intro r hr
      have hne : r ≠ a := fun hra => ha (hra ▸ hr)
      rw [Function.update_of_ne hne]
      exact hheld r (List.mem_cons_of_mem _ hr)
    rw [List.map_cons, balance, Entry.apply, if_pos (hheld a List.mem_cons_self),
      Option.bind_some, ih hnodup hrest]
    refine congrArg some (funext fun r => ?_)
    by_cases hra : r = a <;> simp [hra]

/-- Along a settled ledger what it has acquired and not yet released is held. -/
theorem Settled.balance_front (h : Settled log) (hfresh : ∀ r ∈ acquired log, held r = false)
    (hlog : log = front ++ rest) :
    balance held front =
      some fun r => held r || (decide (r ∈ acquired front) && !decide (r ∈ released front)) := by
  induction front using List.reverseRecOn generalizing rest with
  | nil => simp [balance, acquired]
  | append_singleton front e ih =>
    have hsplit : log = front ++ e :: rest := by rw [hlog, List.append_assoc, List.singleton_append]
    rw [balance_concat (ih hsplit)]
    rw [hsplit] at hfresh
    cases e with
    | acquire a =>
      -- it is not held, as it is acquired once in the whole ledger
      have hnot : a ∉ acquired front := by
        have hnodup := hsplit ▸ h.nodup
        rw [acquired_append, acquired_acquire] at hnodup
        exact fun ha => (List.nodup_append.mp hnodup).2.2 a ha a List.mem_cons_self rfl
      have hback : a ∉ released front := by
        intro ha
        obtain ⟨f₁, f₂, hf⟩ := mem_released.mp ha
        refine hnot ?_
        rw [hf, acquired_append]
        refine List.mem_append_left _ (h.order f₁ a (f₂ ++ .acquire a :: rest) ?_)
        rw [hsplit, hf, List.append_assoc, List.cons_append]
      have hfree : held a = false := hfresh a (by simp)
      rw [Entry.apply, if_neg (by simp [hfree, hnot])]
      refine congrArg some (funext fun r => ?_)
      by_cases hra : r = a <;> simp [hra, hback]
    | release a =>
      have hin : a ∈ acquired front := h.order front a rest hsplit
      have hnot : a ∉ released front := by
        have hnodup := hsplit ▸ h.perm.symm.nodup h.nodup
        rw [released_append, released_release] at hnodup
        exact fun ha => (List.nodup_append.mp hnodup).2.2 a ha a List.mem_cons_self rfl
      have hfree : held a = false := hfresh a (by simp [hin])
      rw [Entry.apply, if_pos (by simp [hin, hnot])]
      refine congrArg some (funext fun r => ?_)
      by_cases hra : r = a <;> simp [hra, hfree]

/-- A call that leaves nothing behind changes nothing. -/
theorem Settled.balance (h : Settled log) (hfresh : ∀ r ∈ acquired log, held r = false) :
    balance held log = some held := by
  rw [h.balance_front hfresh (List.append_nil log).symm]
  refine congrArg some (funext fun r => ?_)
  simp [h.perm.mem_iff]

end Balance

end Ledger
