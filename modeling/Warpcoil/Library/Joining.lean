import Mathlib.Data.List.Basic

/-! Joins, each of which waits for a number of parts and is then a part itself, of an earlier join
or of the whole. Where every part arrives once the whole is done once, and not before the last
part. -/
namespace Joining
variable {π : Type*}

structure Join (π : Type*) where
  part : π
  parts : Nat
  arrived : Nat

def Join.isOpen (join : Join π) : Bool := decide (join.arrived < join.parts)

def Join.arrive (join : Join π) : Join π := { join with arrived := join.arrived + 1 }

/-- What the open joins will be parts of. -/
def pending (joins : List (Join π)) : List π := (joins.filter Join.isOpen).map Join.part

theorem mem_pending {joins : List (Join π)} {p : π} :
    p ∈ pending joins ↔
      ∃ (c : Nat) (join : Join π), joins[c]? = some join ∧ join.isOpen = true ∧ join.part = p := by
  simp only [pending, List.mem_map, List.mem_filter]
  constructor
  · rintro ⟨join, ⟨hmem, hopen⟩, hpart⟩
    obtain ⟨c, hc⟩ := List.mem_iff_getElem?.mp hmem
    exact ⟨c, join, hc, hopen, hpart⟩
  · rintro ⟨c, join, hc, hopen, hpart⟩
    exact ⟨join, ⟨List.mem_iff_getElem?.mpr ⟨c, hc⟩, hopen⟩, hpart⟩

theorem pending_open (joins : List (Join π)) {join : Join π} (h : join.isOpen = true) :
    pending (joins ++ [join]) = pending joins ++ [join.part] := by
  simp [pending, h]

/-- A part that is not the last one arrives. -/
theorem pending_arrive {joins : List (Join π)} {c : Nat} {join : Join π}
    (hc : joins[c]? = some join) (h : join.isOpen = true) (h' : join.arrive.isOpen = true) :
    pending (joins.set c join.arrive) = pending joins := by
  induction joins generalizing c with
  | nil => rfl
  | cons first joins ih =>
    cases c with
    | zero =>
      cases hc
      simp only [pending, List.set_cons_zero, List.filter_cons_of_pos h, List.filter_cons_of_pos h']
      rfl
    | succ c =>
      have hrest := ih (c := c) (by simpa using hc)
      simp only [pending] at hrest ⊢
      by_cases hfirst : first.isOpen = true
      · simp [hfirst, hrest]
      · simp [hfirst, hrest]

/-- The last part arrives. -/
theorem pending_close {joins : List (Join π)} {c : Nat} {join : Join π}
    (hc : joins[c]? = some join) (h : join.isOpen = true) (h' : join.arrive.isOpen = false) :
    (pending joins).Perm (join.part :: pending (joins.set c join.arrive)) := by
  induction joins generalizing c with
  | nil => cases hc
  | cons first joins ih =>
    cases c with
    | zero =>
      cases hc
      simp [pending, h, h']
    | succ c =>
      have hrest := ih (c := c) (by simpa using hc)
      simp only [pending] at hrest ⊢
      by_cases hfirst : first.isOpen = true
      · simpa [hfirst] using (hrest.cons first.part).trans (List.Perm.swap _ _ _)
      · simpa [hfirst] using hrest

variable (parent : π → Option Nat)

/-- Where the parts go that have not arrived. -/
def owed (joins : List (Join π)) (parts : List π) : List (Option Nat) :=
  parts.map parent ++ (pending joins).map parent

/-- Every join lacks as many parts as there are for it, and the whole is done or there is one for
it. -/
structure Balanced (joins : List (Join π)) (parts : List π) (done : Nat) : Prop where
  missing : ∀ c join, joins[c]? = some join →
    join.arrived + (owed parent joins parts).count (some c) = join.parts
  whole : done + (owed parent joins parts).count none = 1
  earlier : ∀ c join, joins[c]? = some join → ∀ c', parent join.part = some c' → c' < c
  known : ∀ p ∈ parts, ∀ c, parent p = some c → c < joins.length

namespace Balanced
variable {parent}
variable {joins : List (Join π)} {parts parts' : List π} {done : Nat} {p : π}

theorem start (h : parent p = none) : Balanced parent [] [p] 0 := by
  refine ⟨nofun, ?_, nofun, fun q hq c hc => ?_⟩
  · simp [owed, pending, h]
  · cases (List.mem_singleton.mp hq ▸ hc : parent p = some c).symm.trans h

theorem congr (h : Balanced parent joins parts done)
    (hparts : (parts.map parent).Perm (parts'.map parent)) :
    Balanced parent joins parts' done := by
  have howed : (owed parent joins parts).Perm (owed parent joins parts') := hparts.append_right _
  refine ⟨fun c join hc => ?_, ?_, h.earlier, fun q hq c hc => ?_⟩
  · rw [← howed.count_eq]
    exact h.missing c join hc
  · rw [← howed.count_eq]
    exact h.whole
  · have hmem : some c ∈ parts.map parent := hparts.mem_iff.mpr (List.mem_map.mpr ⟨q, hq, hc⟩)
    obtain ⟨q', hq', hc'⟩ := List.mem_map.mp hmem
    exact h.known q' hq' c hc'

theorem le_one (h : Balanced parent joins parts done) : done ≤ 1 :=
  by
  have hwhole := h.whole
  omega

theorem lt_of_owed (h : Balanced parent joins parts done) {c : Nat}
    (hc : some c ∈ owed parent joins parts) : c < joins.length := by
  rcases List.mem_append.mp hc with hc | hc
  · obtain ⟨q, hq, hc⟩ := List.mem_map.mp hc
    exact h.known q hq c hc
  · obtain ⟨q, hq, hc⟩ := List.mem_map.mp hc
    obtain ⟨c', join, hjoin, -, rfl⟩ := mem_pending.mp hq
    exact Nat.lt_trans (h.earlier c' join hjoin c hc) (List.getElem?_eq_some_iff.mp hjoin).1

theorem open_of_owed (h : Balanced parent joins parts done) {c : Nat} {join : Join π}
    (hjoin : joins[c]? = some join) (hc : some c ∈ owed parent joins parts) :
    join.isOpen = true := by
  have hcount := List.count_pos_iff.mpr hc
  have hmissing := h.missing c join hjoin
  exact decide_eq_true (by omega)

/-- Nothing is on its way to the joins when the whole is done. -/
theorem owed_of_done (h : Balanced parent joins parts done) (hdone : 0 < done) :
    owed parent joins parts = [] := by
  have hwhole : none ∉ owed parent joins parts := by
    intro hmem
    have hcount := List.count_pos_iff.mpr hmem
    have hone := h.whole
    omega
  have hnone : ∀ c, some c ∉ owed parent joins parts := by
    intro c
    induction c using Nat.strongRecOn with
    | _ c ih =>
      intro hc
      obtain ⟨join, hjoin⟩ : ∃ join, joins[c]? = some join :=
        ⟨_, List.getElem?_eq_getElem (h.lt_of_owed hc)⟩
      have hpart : parent join.part ∈ owed parent joins parts := by
        refine List.mem_append_right _ (List.mem_map_of_mem (mem_pending.mpr ?_))
        exact ⟨c, join, hjoin, h.open_of_owed hjoin hc, rfl⟩
      cases hparent : parent join.part with
      | none => exact hwhole (hparent ▸ hpart)
      | some c' => exact ih c' (h.earlier c join hjoin c' hparent) (hparent ▸ hpart)
  refine List.eq_nil_iff_forall_not_mem.mpr fun o ho => ?_
  cases o with
  | none => exact hwhole ho
  | some c => exact hnone c ho

/-- All joins are closed when no parts are left, and the whole is done. -/
theorem done_of_nil (h : Balanced parent joins [] done) : pending joins = [] ∧ done = 1 := by
  have hclosed : ∀ n c join, joins.length - c = n → joins[c]? = some join →
      join.isOpen = false := by
    intro n
    induction n using Nat.strongRecOn with
    | _ n ih =>
      intro c join hn hjoin
      by_contra hopen
      rw [Bool.not_eq_false, Join.isOpen, decide_eq_true_iff] at hopen
      have hmissing := h.missing c join hjoin
      have hc : some c ∈ owed parent joins [] := List.count_pos_iff.mp (by omega)
      obtain ⟨q, hq, hc⟩ := List.mem_map.mp (by simpa [owed] using hc)
      obtain ⟨c', join', hjoin', hopen', rfl⟩ := mem_pending.mp hq
      have hlt := h.earlier c' join' hjoin' c hc
      have hlen := (List.getElem?_eq_some_iff.mp hjoin').1
      rw [ih (joins.length - c') (by omega) c' join' rfl hjoin'] at hopen'
      cases hopen'
  have hpending : pending joins = [] := by
    refine List.eq_nil_iff_forall_not_mem.mpr fun q hq => ?_
    obtain ⟨c, join, hjoin, hopen, -⟩ := mem_pending.mp hq
    rw [hclosed _ c join rfl hjoin] at hopen
    cases hopen
  refine ⟨hpending, ?_⟩
  have hwhole := h.whole
  simpa [owed, hpending] using hwhole

/-- A part becomes a join of new parts. -/
theorem fork {q : π} {children : List π} (h : Balanced parent joins (p::parts) done)
    (hq : parent q = parent p) (hne : 0 < children.length)
    (hchildren : ∀ child ∈ children, parent child = some joins.length) :
    Balanced parent (joins ++ [⟨q, children.length, 0⟩]) (children ++ parts) done := by
  have hmap : children.map parent = List.replicate children.length (some joins.length) := by
    refine List.eq_replicate_iff.mpr ⟨List.length_map _, fun o ho => ?_⟩
    obtain ⟨child, hchild, rfl⟩ := List.mem_map.mp ho
    exact hchildren child hchild
  have hcount : ∀ o, (owed parent (joins ++ [⟨q, children.length, 0⟩])
      (children ++ parts)).count o =
      (if some joins.length == o then children.length else 0) +
        (owed parent joins (p::parts)).count o := by
    intro o
    have hopen : (⟨q, children.length, 0⟩ : Join π).isOpen = true := decide_eq_true hne
    simp only [owed, pending_open joins hopen, List.map_append, hmap, List.count_append,
      List.count_replicate, List.map_cons, List.map_nil, List.count_cons, List.count_nil, hq]
    omega
  refine ⟨fun c join hjoin => ?_, ?_, fun c join hjoin c' hc' => ?_, fun r hr c hc => ?_⟩
  · rw [hcount]
    rcases Nat.lt_trichotomy c joins.length with hlt | heq | hgt
    · rw [List.getElem?_append_left hlt] at hjoin
      have hne' : (some joins.length == some c) = false := by simpa using Nat.ne_of_gt hlt
      rw [hne', if_neg Bool.false_ne_true, Nat.zero_add]
      exact h.missing c join hjoin
    · subst heq
      have hnot : some joins.length ∉ owed parent joins (p::parts) := fun hmem =>
        Nat.lt_irrefl _ (h.lt_of_owed hmem)
      rw [List.getElem?_concat_length, Option.some.injEq] at hjoin
      subst hjoin
      simp [List.count_eq_zero.mpr hnot]
    · rw [List.getElem?_eq_none (by simpa [Nat.succ_le_iff] using hgt)] at hjoin
      cases hjoin
  · rw [hcount]
    simpa using h.whole
  · rcases Nat.lt_trichotomy c joins.length with hlt | heq | hgt
    · rw [List.getElem?_append_left hlt] at hjoin
      exact h.earlier c join hjoin c' hc'
    · subst heq
      rw [List.getElem?_concat_length, Option.some.injEq] at hjoin
      subst hjoin
      exact h.known p (List.mem_cons_self ..) c' (hq.symm.trans hc')
    · rw [List.getElem?_eq_none (by simpa [Nat.succ_le_iff] using hgt)] at hjoin
      cases hjoin
  · rw [List.length_append, List.length_singleton]
    rcases List.mem_append.mp hr with hr | hr
    · rw [hchildren r hr, Option.some.injEq] at hc
      omega
    · have hlt := h.known r (List.mem_cons_of_mem _ hr) c hc
      omega

/-- The whole is done. -/
theorem finish (h : Balanced parent joins (p::parts) done) (hp : parent p = none) :
    Balanced parent joins parts (done + 1) := by
  have howed : owed parent joins (p::parts) = none :: owed parent joins parts := by
    rw [owed, List.map_cons, hp]
    rfl
  refine ⟨fun c join hjoin => ?_, ?_, h.earlier, fun q hq => h.known q (List.mem_cons_of_mem _ hq)⟩
  · have hmissing := h.missing c join hjoin
    rwa [howed, List.count_cons_of_ne (Option.some_ne_none c).symm] at hmissing
  · have hwhole := h.whole
    rw [howed, List.count_cons_self] at hwhole
    omega

theorem getElem?_set_arrive {c c' : Nat} {join join' : Join π} (hjoin : joins[c]? = some join)
    (h : (joins.set c join.arrive)[c']? = some join') :
    c' = c ∧ join' = join.arrive ∨ c' ≠ c ∧ joins[c']? = some join' := by
  by_cases heq : c' = c
  · subst heq
    rw [List.getElem?_set_self (List.getElem?_eq_some_iff.mp hjoin).1, Option.some.injEq] at h
    exact .inl ⟨rfl, h.symm⟩
  · rw [List.getElem?_set_ne (Ne.symm heq)] at h
    exact .inr ⟨heq, h⟩

theorem arrived {c : Nat} {join : Join π} (h : Balanced parent joins (p::parts) done)
    (hjoin : joins[c]? = some join)
    (howed : (owed parent joins (p::parts)).Perm
      (some c :: owed parent (joins.set c join.arrive) parts'))
    (hknown : ∀ q ∈ parts', ∀ c, parent q = some c → c < joins.length) :
    Balanced parent (joins.set c join.arrive) parts' done := by
  refine ⟨fun c' join' hjoin' => ?_, ?_, fun c' join' hjoin' => ?_, fun q hq => ?_⟩
  · rcases getElem?_set_arrive hjoin hjoin' with ⟨rfl, rfl⟩ | ⟨hne, hjoin'⟩
    · have hmissing := h.missing c' join hjoin
      rw [howed.count_eq, List.count_cons_self] at hmissing
      simp only [Join.arrive] at hmissing ⊢
      omega
    · have hmissing := h.missing c' join' hjoin'
      rwa [howed.count_eq, List.count_cons_of_ne (by simpa using Ne.symm hne)] at hmissing
  · have hwhole := h.whole
    rwa [howed.count_eq, List.count_cons_of_ne (Option.some_ne_none c)] at hwhole
  · rcases getElem?_set_arrive hjoin hjoin' with ⟨rfl, rfl⟩ | ⟨-, hjoin'⟩
    · exact h.earlier c' join hjoin
    · exact h.earlier c' join' hjoin'
  · rw [List.length_set]
    exact hknown q hq

/-- A part arrives, and its join still lacks others. -/
theorem arrive {c : Nat} {join : Join π} (h : Balanced parent joins (p::parts) done)
    (hp : parent p = some c) (hjoin : joins[c]? = some join)
    (hopen : join.arrive.isOpen = true) :
    Balanced parent (joins.set c join.arrive) parts done := by
  have hwas : join.isOpen = true := h.open_of_owed hjoin (by simp [owed, hp])
  refine h.arrived hjoin ?_ fun q hq => h.known q (List.mem_cons_of_mem _ hq)
  rw [owed, owed, List.map_cons, hp, pending_arrive hjoin hwas hopen]
  rfl

/-- The last part of a join arrives. -/
theorem close {c : Nat} {join : Join π} (h : Balanced parent joins (p::parts) done)
    (hp : parent p = some c) (hjoin : joins[c]? = some join)
    (hclosed : join.arrive.isOpen = false) :
    Balanced parent (joins.set c join.arrive) (join.part::parts) done := by
  have hwas : join.isOpen = true := h.open_of_owed hjoin (by simp [owed, hp])
  refine h.arrived hjoin ?_ fun q hq c' hc' => ?_
  · rw [owed, owed, List.map_cons, List.map_cons, hp]
    refine List.Perm.cons _ ?_
    exact (((pending_close hjoin hwas hclosed).map parent).append_left _).trans
      List.perm_middle
  · rcases List.mem_cons.mp hq with rfl | hq
    · exact Nat.lt_trans (h.earlier c join hjoin c' hc') (List.getElem?_eq_some_iff.mp hjoin).1
    · exact h.known q (List.mem_cons_of_mem _ hq) c' hc'

end Balanced
end Joining
