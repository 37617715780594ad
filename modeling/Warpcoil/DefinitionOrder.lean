import Mathlib.Data.List.Perm.Basic
import Mathlib.Data.List.Perm.Subperm
import Warpcoil.SharedCode

/-! What the generator of the shared code defines, and where. A structure is inserted into the
generated ones only after its members and its parser, so that the first mention of another one
in a field is followed by the whole definition of that one. -/
namespace Warpcoil
namespace SharedCode
open Writing

theorem found_iff {generated : List Structure} {required : Structure} :
    found generated required = true ↔ required ∈ generated := by
  simp only [found, List.any_eq_true, Bool.and_eq_true, Bool.not_eq_true',
    (structure_trichotomous _ required).eq_iff]
  simp

theorem different_iff {left right : Structure} : Different left right ↔ left ≠ right := by
  have heq := (structure_trichotomous left right).eq_iff
  rw [Different, ← not_iff_not, not_or, Bool.not_eq_true, Bool.not_eq_true, heq, not_not]

@[simp] theorem marksOfAll_append (cs ds : List Code) :
    marksOfAll (cs ++ ds) = marksOfAll cs ++ marksOfAll ds := by
  induction cs with
  | nil => simp [marksOfAll]
  | cons c cs ih => simp [marksOfAll, ih]

@[simp] theorem allAtNamespaceScope_append (cs ds : List Code) :
    allAtNamespaceScope (cs ++ ds) ↔ allAtNamespaceScope cs ∧ allAtNamespaceScope ds := by
  induction cs with
  | nil => simp [allAtNamespaceScope]
  | cons c cs ih => simp [allAtNamespaceScope, ih, and_assoc]

@[simp] theorem structs_append (cs ds : List Code) :
    structs (cs ++ ds) = structs cs ++ structs ds := by
  simp [structs]

@[simp] theorem parsers_append (cs ds : List Code) :
    parsers (cs ++ ds) = parsers cs ++ parsers ds := by
  simp [parsers]

/-! A structure does not occur in its own fields. -/

mutual
theorem sizeOf_occurring : ∀ (t : Ty), ∀ S ∈ occurring t, sizeOf S < sizeOf t
  | .integer _, _, h | .utf8 _, _, h => by simp [occurring] at h
  | .variant elements, S, h | .tuple elements, S, h => by
    rw [occurring] at h
    have hlt := sizeOf_occurringInAll elements S h
    simp only [Ty.variant.sizeOf_spec, Ty.tuple.sizeOf_spec]
    omega
  | .vector _ element, S, h => by
    rw [occurring] at h
    have hlt := sizeOf_occurring element S h
    simp only [Ty.vector.sizeOf_spec]
    omega
  | .struct elements, S, h => by
    rw [occurring, List.mem_cons] at h
    simp only [Ty.struct.sizeOf_spec]
    rcases h with heq | h
    · subst heq
      omega
    · have hlt := sizeOf_occurringInFields elements S h
      omega
theorem sizeOf_occurringInAll : ∀ (ts : List Ty), ∀ S ∈ occurringInAll ts, sizeOf S < sizeOf ts
  | [], _, h => by simp [occurringInAll] at h
  | t::ts, S, h => by
    rw [occurringInAll, List.mem_append] at h
    simp only [List.cons.sizeOf_spec]
    rcases h with h | h
    · have hlt := sizeOf_occurring t S h
      omega
    · have hlt := sizeOf_occurringInAll ts S h
      omega
theorem sizeOf_occurringInFields : ∀ (elements : Structure),
    ∀ S ∈ occurringInFields elements, sizeOf S < sizeOf elements
  | [], _, h => by simp [occurringInFields] at h
  | (t, name)::elements, S, h => by
    rw [occurringInFields, List.mem_append] at h
    simp only [List.cons.sizeOf_spec, Prod.mk.sizeOf_spec]
    rcases h with h | h
    · have hlt := sizeOf_occurring t S h
      omega
    · have hlt := sizeOf_occurringInFields elements S h
      omega
end

theorem not_occurringInFields_self (S : Structure) : S ∉ occurringInFields S :=
  fun h => Nat.lt_irrefl _ (sizeOf_occurringInFields S S h)

mutual
theorem occurring_of_mentioned : ∀ (t : Ty), ∀ S ∈ mentioned t, S ∈ occurring t
  | .integer _, _, h | .utf8 _, _, h => by simp [mentioned] at h
  | .variant elements, S, h | .tuple elements, S, h => by
    rw [mentioned] at h
    rw [occurring]
    exact occurringInAll_of_mentioned elements S h
  | .vector _ element, S, h => by
    rw [mentioned] at h
    rw [occurring]
    exact occurring_of_mentioned element S h
  | .struct elements, S, h => by
    rw [mentioned, List.mem_singleton] at h
    rw [occurring, h]
    exact List.mem_cons_self
theorem occurringInAll_of_mentioned : ∀ (ts : List Ty), ∀ S ∈ mentionedByAll ts,
    S ∈ occurringInAll ts
  | [], _, h => by simp [mentionedByAll] at h
  | t::ts, S, h => by
    rw [mentionedByAll, List.mem_append] at h
    rw [occurringInAll, List.mem_append]
    exact h.imp (occurring_of_mentioned t S) (occurringInAll_of_mentioned ts S)
end

theorem occurringInFields_of_mentioned (elements : Structure) (S : Structure)
    (h : S ∈ mentionedByFields elements) : S ∈ occurringInFields elements := by
  induction elements with
  | nil => simp [mentionedByFields] at h
  | cons element elements ih =>
    obtain ⟨t, name⟩ := element
    rw [mentionedByFields, List.flatMap_cons, List.mem_append] at h
    rw [occurringInFields, List.mem_append]
    exact h.imp (occurring_of_mentioned t S) ih

/-! What a statement defines. -/

/-- All that occurs in a structure of the list is in the list. -/
def Closed (generated : List Structure) : Prop :=
  ∀ S ∈ generated, ∀ T ∈ occurringInFields S, T ∈ generated

/-- A statement for types that mention the structures `mentions`, where the structures `wanted`
occur: of these it defines those that were not generated yet, each once. -/
structure Defines (mentions wanted generated : List Structure) (cs : List Code)
    (generated' : List Structure) : Prop where
  perm : generated'.Perm (generated ++ structs cs)
  parsersToo : (parsers cs).Perm (structs cs)
  nodup : generated.Nodup → generated'.Nodup
  only : ∀ S ∈ structs cs, S ∈ wanted
  complete : Closed generated → Closed generated' ∧ ∀ S ∈ wanted, S ∈ generated'
  known : (∀ S ∈ mentions, S ∈ generated) → marksOfAll cs = []

namespace Defines
variable {mentions mentions' wanted wanted' generated generated' generated'' : List Structure}
variable {cs ds : List Code}

theorem kept (h : Defines mentions wanted generated cs generated') {S : Structure}
    (hS : S ∈ generated) : S ∈ generated' :=
  h.perm.mem_iff.mpr (List.mem_append_left _ hS)

theorem still_new (h : Defines mentions wanted generated cs generated') {S : Structure}
    (hS : S ∉ generated) (hother : S ∉ wanted) : S ∉ generated' := by
  intro hmem
  rcases List.mem_append.mp (h.perm.mem_iff.mp hmem) with hmem | hmem
  · exact hS hmem
  · exact hother (h.only S hmem)

theorem plain (h : marksOfAll cs = []) : Defines [] [] generated cs generated := by
  have hstructs : structs cs = [] := by simp [structs, h]
  have hparsers : parsers cs = [] := by simp [parsers, h]
  refine ⟨?_, ?_, id, ?_, fun hclosed => ⟨hclosed, by simp⟩, fun _ => h⟩
  · simp [hstructs]
  · simp [hstructs, hparsers]
  · simp [hstructs]

theorem append (h : Defines mentions wanted generated cs generated')
    (h' : Defines mentions' wanted' generated' ds generated'') :
    Defines (mentions ++ mentions') (wanted ++ wanted') generated (cs ++ ds) generated'' := by
  refine ⟨?_, ?_, fun hnodup => h'.nodup (h.nodup hnodup), ?_, fun hclosed => ?_, fun hknown => ?_⟩
  · rw [structs_append, ← List.append_assoc]
    exact h'.perm.trans (h.perm.append_right _)
  · rw [parsers_append, structs_append]
    exact h.parsersToo.append h'.parsersToo
  · intro S hS
    rw [structs_append, List.mem_append] at hS
    exact List.mem_append.mpr (hS.imp (h.only S) (h'.only S))
  · obtain ⟨hclosed, hwanted⟩ := h.complete hclosed
    obtain ⟨hclosed, hwanted'⟩ := h'.complete hclosed
    refine ⟨hclosed, fun S hS => ?_⟩
    rcases List.mem_append.mp hS with hS | hS
    · exact h'.kept (hwanted S hS)
    · exact hwanted' S hS
  · have hfirst := h.known fun S hS => hknown S (List.mem_append_left _ hS)
    have hsecond := h'.known fun S hS => h.kept (hknown S (List.mem_append_right _ hS))
    rw [marksOfAll_append, hfirst, hsecond]
    rfl

/-- Where nothing is defined all the mentioned structures had been generated. -/
theorem mentions_generated (h : Defines mentions wanted generated cs generated')
    (hsub : ∀ S ∈ mentions, S ∈ wanted) (hclosed : Closed generated)
    (hmarks : marksOfAll cs = []) (S : Structure) (hS : S ∈ mentions) : S ∈ generated := by
  have hmem := (h.complete hclosed).2 S (hsub S hS)
  have hstructs : structs cs = [] := by simp [structs, hmarks]
  simpa [hstructs] using h.perm.mem_iff.mp hmem

theorem found {S : Structure} (h : S ∈ generated) :
    Defines [S] (S :: occurringInFields S) generated [] generated := by
  refine ⟨by simp [structs, marksOfAll], List.Perm.refl [], id, nofun, fun hclosed => ?_,
    fun _ => by simp [marksOfAll]⟩
  refine ⟨hclosed, fun T hT => ?_⟩
  rcases List.mem_cons.mp hT with hT | hT
  · rwa [hT]
  · exact hclosed S h T hT

/-- The members and the parser of a new structure, and its insertion. -/
theorem definition {S : Structure} {members getters base : List Code} (hnew : S ∉ generated)
    (hbase : marksOfAll base = [])
    (h : Defines mentions (occurringInFields S) generated members generated')
    (h' : Defines mentions (occurringInFields S) generated' getters generated'') :
    Defines [S] (S :: occurringInFields S) generated
      [.struct S members, .scope "warpcoil" [.scope "cpp" [.parser S base getters]]]
      (generated'' ++ [S]) := by
  have hboth := h.append h'
  have hmarks : marksOfAll
      [.struct S members, .scope "warpcoil" [.scope "cpp" [.parser S base getters]]] =
      (Definition.struct S).around (marksOfAll members) ++
        (Definition.parser S).around (marksOfAll getters) := by
    simp [marksOfAll, Code.marks, hbase]
  have hstructs : structs
      [.struct S members, .scope "warpcoil" [.scope "cpp" [.parser S base getters]]] =
      S :: structs (members ++ getters) := by
    simp [structs, hmarks, Definition.around, List.filterMap_cons, Mark.openedStruct]
  have hparsers : (parsers
      [.struct S members, .scope "warpcoil" [.scope "cpp" [.parser S base getters]]]).Perm
      (S :: parsers (members ++ getters)) := by
    simp only [parsers, hmarks, marksOfAll_append, List.filterMap_append]
    simp [Definition.around, List.filterMap_cons, Mark.openedParser]
  have honly : ∀ T ∈ structs (members ++ getters), T ∈ occurringInFields S := by
    intro T hT
    have hown := hboth.only T hT
    rwa [List.mem_append, or_self] at hown
  have hmem : S ∉ generated'' :=
    h'.still_new (h.still_new hnew (not_occurringInFields_self S)) (not_occurringInFields_self S)
  refine ⟨?_, ?_, fun hnodup => ?_, ?_, fun hclosed => ?_, fun hknown => ?_⟩
  · rw [hstructs]
    exact (List.perm_append_singleton S _).trans
      ((hboth.perm.cons S).trans List.perm_middle.symm)
  · rw [hstructs]
    exact hparsers.trans (hboth.parsersToo.cons S)
  · exact List.nodup_append.mpr ⟨hboth.nodup hnodup, List.nodup_singleton S,
      fun T hT T' hT' heq => hmem (List.mem_singleton.mp hT' ▸ heq ▸ hT)⟩
  · intro T hT
    rw [hstructs] at hT
    rcases List.mem_cons.mp hT with hT | hT
    · simp [hT]
    · exact List.mem_cons_of_mem S (honly T hT)
  · obtain ⟨hclosed, hall⟩ := hboth.complete hclosed
    have hfields : ∀ T ∈ occurringInFields S, T ∈ generated'' := fun T hT =>
      hall T (List.mem_append_left _ hT)
    refine ⟨fun T hT U hU => List.mem_append_left _ ?_, fun T hT => ?_⟩
    · rcases List.mem_append.mp hT with hT | hT
      · exact hclosed T hT U hU
      · rw [List.mem_singleton] at hT
        subst hT
        exact hfields U hU
    · rcases List.mem_cons.mp hT with hT | hT
      · simp [hT]
      · exact List.mem_append_left _ (hfields T hT)
  · exact absurd (hknown S (List.mem_singleton_self S)) hnew

end Defines

/-! What `require_structure` and `generate_type` define. -/

theorem append_defines (code : Sink) {c : Code} (h : c.marks = []) :
    (code.append c).Does (Defines [] []) := by
  intro generated
  cases code with
  | shared =>
    have hmarks : marksOfAll [c] = [] := by simp [marksOfAll, h]
    exact .plain hmarks
  | other => exact .plain rfl

theorem writeAll_defines {cs : List Code} (h : marksOfAll cs = []) :
    (writeAll cs).Does (Defines [] []) :=
  fun _ => .plain h

theorem marks_parserBase (S : Structure) : marksOfAll (parserBase S) = [] := by
  have helements : ∀ elements : Structure,
      marksOfAll (elements.flatMap fun e => [.text ", ", .parserType e.1]) = [] := by
    intro elements
    induction elements with
    | nil => rfl
    | cons element elements ih => simpa [marksOfAll, Code.marks] using ih
  simp [parserBase, marksOfAll, Code.marks, helements]

theorem generateParser_defines {S : Structure} {getters : Generating}
    (h : getters.Does (Defines (mentionedByFields S) (occurringInFields S))) :
    (generateParser S getters).Does fun generated cs generated' =>
      ∃ base content, cs = [.parser S base content] ∧ marksOfAll base = [] ∧
        Defines (mentionedByFields S) (occurringInFields S) generated content generated' := by
  intro generated
  cases S with
  | nil => exact ⟨_, _, rfl, by simp [marksOfAll, Code.marks],
      .plain (by simp [emptyParser, writeAll, marksOfAll, Code.marks])⟩
  | cons element elements => exact ⟨_, _, rfl, marks_parserBase _, h generated⟩

/-- A new structure. -/
theorem requireWith_new {S : Structure} {members getters : Generating} {generated : List Structure}
    (hnew : S ∉ generated)
    (hmembers : members.Does (Defines (mentionedByFields S) (occurringInFields S)))
    (hgetters : getters.Does (Defines (mentionedByFields S) (occurringInFields S))) :
    ∃ base content generated', requireWith S members getters generated =
        ([.struct S (members generated).1,
          .scope "warpcoil" [.scope "cpp" [.parser S base content]]], generated' ++ [S]) ∧
      marksOfAll base = [] ∧
      Defines (mentionedByFields S) (occurringInFields S) (members generated).2 content
        generated' := by
  obtain ⟨base, content, hparser, hbase, hcontent⟩ :=
    generateParser_defines hgetters (members generated).2
  refine ⟨base, content, _, ?_, hbase, hcontent⟩
  have hkept := hcontent.still_new
    ((hmembers generated).still_new hnew (not_occurringInFields_self S))
    (not_occurringInFields_self S)
  rw [requireWith, if_neg (mt found_iff.mp hnew)]
  simp [all, seq, inside, skip, insert, hparser, mt found_iff.mp hkept]

theorem requireWith_defines {S : Structure} {members getters : Generating}
    (hmembers : members.Does (Defines (mentionedByFields S) (occurringInFields S)))
    (hgetters : getters.Does (Defines (mentionedByFields S) (occurringInFields S))) :
    (requireWith S members getters).Does (Defines [S] (S :: occurringInFields S)) := by
  intro generated
  by_cases h : S ∈ generated
  · rw [requireWith, if_pos (found_iff.mpr h)]
    exact .found h
  · obtain ⟨base, content, generated', heq, hbase, hcontent⟩ :=
      requireWith_new h hmembers hgetters
    rw [heq]
    exact .definition h hbase (hmembers generated) hcontent

theorem seq_defines {m n : Generating} {mentions mentions' wanted wanted' : List Structure}
    (hm : m.Does (Defines mentions wanted)) (hn : n.Does (Defines mentions' wanted')) :
    (m.seq n).Does (Defines (mentions ++ mentions') (wanted ++ wanted')) :=
  hm.seq hn fun _ _ _ _ _ => .append

/-- Between two texts. -/
theorem between_defines (code : Sink) (left right : String) {m : Generating}
    {mentions wanted : List Structure} (h : m.Does (Defines mentions wanted)) :
    ((code.append (.text left)).seq (m.seq (code.append (.text right)))).Does
      (Defines mentions wanted) := by
  have hboth := seq_defines (append_defines code (c := .text left) (by simp [Code.marks]))
    (seq_defines h (append_defines code (c := .text right) (by simp [Code.marks])))
  simpa using hboth

mutual
theorem generateType_defines : ∀ (t : Ty) (code : Sink),
    (generateType code t).Does (Defines (mentioned t) (occurring t))
  | .integer _, code | .utf8 _, code => by
    rw [generateType, mentioned, occurring]
    exact append_defines code (by simp [Code.marks])
  | .variant elements, code | .tuple elements, code => by
    rw [generateType, mentioned, occurring]
    exact between_defines code _ _ (generateElements_defines elements code true)
  | .vector _ element, code => by
    rw [generateType, mentioned, occurring]
    exact between_defines code _ _ (generateType_defines element code)
  | .struct elements, code => by
    rw [generateType, mentioned, occurring]
    have hdefinition := requireWith_defines (generateMembers_defines elements)
      (generateGetters_defines elements elements 0)
    simpa using seq_defines hdefinition
      (append_defines code (c := .structureName elements) (by simp [Code.marks]))
theorem generateElements_defines : ∀ (ts : List Ty) (code : Sink) (first : Bool),
    (generateElements code first ts).Does (Defines (mentionedByAll ts) (occurringInAll ts))
  | [], _, _ => by
    rw [generateElements, mentionedByAll, occurringInAll]
    exact fun _ => .plain rfl
  | t::ts, code, first => by
    rw [generateElements, mentionedByAll, occurringInAll]
    have hcomma : (if first then skip else code.append (.text ", ")).Does (Defines [] []) := by
      cases first with
      | true => exact fun _ => .plain rfl
      | false => exact append_defines code (by simp [Code.marks])
    have hall := seq_defines hcomma
      (seq_defines (generateType_defines t code) (generateElements_defines ts code false))
    exact hall
theorem generateMembers_defines : ∀ elements : Structure,
    (generateMembers elements).Does
      (Defines (mentionedByFields elements) (occurringInFields elements))
  | [] => by
    rw [generateMembers, occurringInFields]
    exact fun _ => .plain rfl
  | (t, name)::elements => by
    rw [generateMembers, occurringInFields, mentionedByFields, List.flatMap_cons]
    exact seq_defines (generateType_defines t .shared)
      (seq_defines (writeAll_defines (by simp [marksOfAll, Code.marks]))
        (generateMembers_defines elements))
theorem generateGetters_defines : ∀ (elements required : Structure) (index : Nat),
    (generateGetters required index elements).Does
      (Defines (mentionedByFields elements) (occurringInFields elements))
  | [], _, _ => by
    rw [generateGetters, occurringInFields]
    exact fun _ => .plain rfl
  | (t, name)::elements, required, index => by
    rw [generateGetters, occurringInFields, mentionedByFields, List.flatMap_cons]
    exact seq_defines (generateType_defines t .shared)
      (seq_defines (writeAll_defines (by simp [marksOfAll, Code.marks]))
        (generateGetters_defines elements required (index + 1)))
end

theorem requireStructure_defines (S : Structure) :
    (requireStructure S).Does (Defines [S] (S :: occurringInFields S)) :=
  requireWith_defines (generateMembers_defines S) (generateGetters_defines S S 0)

/-! Both functions only ever require structures, one after the other. -/

def requireAll (required : List Structure) : Generating := all (required.map requireStructure)

theorem requireAll_append (before after : List Structure) :
    requireAll (before ++ after) = (requireAll before).seq (requireAll after) := by
  rw [requireAll, List.map_append, all_append]
  rfl

mutual
theorem generateType_other : ∀ t : Ty, generateType .other t = requireAll (mentioned t)
  | .integer _ | .utf8 _ => by
    rw [generateType, mentioned]
    rfl
  | .variant elements | .tuple elements => by
    rw [generateType, mentioned, generateElements_other elements, Sink.append, Sink.append,
      skip_seq, seq_skip]
  | .vector _ element => by
    rw [generateType, mentioned, generateType_other element, Sink.append, Sink.append, skip_seq,
      seq_skip]
  | .struct elements => by
    rw [generateType, mentioned, Sink.append, seq_skip]
    exact (seq_skip _).symm
theorem generateElements_other : ∀ (ts : List Ty) (first : Bool),
    generateElements .other first ts = requireAll (mentionedByAll ts)
  | [], _ => by
    rw [generateElements, mentionedByAll]
    rfl
  | t::ts, first => by
    rw [generateElements, mentionedByAll, requireAll_append, generateType_other t,
      generateElements_other ts, Sink.append, ite_self, skip_seq]
end

theorem run_eq_requireAll (calls : List Call) :
    run calls = requireAll (calls.flatMap Call.required) := by
  induction calls with
  | nil => rfl
  | cons call calls ih =>
    have hcall : call.run = requireAll call.required := by
      cases call with
      | requireStructure required => exact (seq_skip _).symm
      | generateType root => exact generateType_other root
    rw [List.flatMap_cons, requireAll_append, ← ih, ← hcall]
    rfl

theorem run_defines (calls : List Call) :
    (run calls).Does (Defines (calls.flatMap Call.required) (calls.flatMap Call.occurring)) := by
  induction calls with
  | nil => exact fun _ => .plain rfl
  | cons call calls ih =>
    have hcall : call.run.Does (Defines call.required call.occurring) := by
      cases call with
      | requireStructure required => exact requireStructure_defines required
      | generateType root => exact generateType_defines root .other
    exact seq_defines hcall ih

/-! Where all that the fields mention has been generated, the definition encloses no other. -/

theorem requireStructure_known {S : Structure} {generated : List Structure}
    (hknown : ∀ T ∈ mentionedByFields S, T ∈ generated) :
    (S ∈ generated ∧ requireStructure S generated = ([], generated)) ∨
      ∃ cs generated', requireStructure S generated = (cs, generated') ∧
        allAtNamespaceScope cs ∧ generated'.Perm (generated ++ [S]) ∧
        marksOfAll cs = (Definition.struct S).around [] ++ (Definition.parser S).around [] := by
  by_cases h : S ∈ generated
  · refine .inl ⟨h, ?_⟩
    rw [requireStructure, requireWith, if_pos (found_iff.mpr h)]
    rfl
  · have hmembers := generateMembers_defines S
    obtain ⟨base, content, generated', heq, hbase, hcontent⟩ :=
      requireWith_new h hmembers (generateGetters_defines S S 0)
    have hplain := (hmembers generated).known hknown
    have hplain' := hcontent.known fun T hT => (hmembers generated).kept (hknown T hT)
    refine .inr ⟨_, _, heq, ?_, ?_, ?_⟩
    · simp [allAtNamespaceScope, Code.atNamespaceScope, hplain, hplain', hbase]
    · have hperm := (hmembers generated).perm
      have hperm' := hcontent.perm
      simp only [structs, hplain, hplain', List.filterMap_nil, List.append_nil] at hperm hperm'
      exact (hperm'.trans hperm).append_right [S]
    · simp [marksOfAll, Code.marks, hplain, hplain', hbase]

theorem known_of_scope {S : Structure} {generated : List Structure} (hclosed : Closed generated)
    (hscope : allAtNamespaceScope (requireStructure S generated).1) :
    ∀ T ∈ mentionedByFields S, T ∈ generated := by
  have hsub := occurringInFields_of_mentioned S
  by_cases h : S ∈ generated
  · exact fun T hT => hclosed S h T (hsub T hT)
  · have hmembers := generateMembers_defines S
    obtain ⟨base, content, generated', heq, hbase, hcontent⟩ :=
      requireWith_new h hmembers (generateGetters_defines S S 0)
    rw [requireStructure, heq] at hscope
    exact (hmembers generated).mentions_generated hsub hclosed hscope.1

/-- The generated structures are those that were asked for. -/
structure Follows (seen generated : List Structure) : Prop where
  closed : Closed generated
  same : ∀ S, S ∈ generated ↔ S ∈ seen

/-- Such a structure with nothing new in its fields joins them. -/
theorem Follows.require {seen generated : List Structure} {S : Structure}
    (h : Follows seen generated) (hknown : FieldsKnown seen S) :
    Follows (seen ++ [S]) (requireStructure S generated).2 := by
  have hclosed := ((requireStructure_defines S generated).complete h.closed).1
  refine ⟨hclosed, fun T => ?_⟩
  rcases requireStructure_known fun T hT => (h.same T).mpr (hknown T hT) with
    ⟨hS, heq⟩ | ⟨cs, generated', heq, -, hperm, -⟩
  · have hseen := (h.same S).mp hS
    rw [heq, h.same, List.mem_append, List.mem_singleton]
    exact ⟨.inl, fun hT => hT.elim id fun hT => hT ▸ hseen⟩
  · rw [heq, hperm.mem_iff, List.mem_append, List.mem_append, h.same]

theorem requireAll_scoped_iff (required : List Structure) {seen generated : List Structure}
    (h : Follows seen generated) :
    allAtNamespaceScope (requireAll required generated).1 ↔ Grounded FieldsKnown seen required := by
  induction required generalizing seen generated with
  | nil => simp [requireAll, all, skip, allAtNamespaceScope, Grounded]
  | cons S required ih =>
    change allAtNamespaceScope ((requireStructure S generated).1 ++
      (requireAll required (requireStructure S generated).2).1) ↔ _
    rw [allAtNamespaceScope_append, Grounded]
    constructor
    · rintro ⟨hfirst, hrest⟩
      have hknown : FieldsKnown seen S := fun T hT =>
        (h.same T).mp (known_of_scope h.closed hfirst T hT)
      exact ⟨hknown, (ih (h.require hknown)).mp hrest⟩
    · rintro ⟨hknown, hrest⟩
      refine ⟨?_, (ih (h.require hknown)).mpr hrest⟩
      rcases requireStructure_known fun T hT => (h.same T).mpr (hknown T hT) with
        ⟨-, heq⟩ | ⟨cs, generated', heq, hscope, -, -⟩
      · rw [heq]
        trivial
      · rwa [heq]

/-- Every generated structure and its parser are complete. -/
def Behind (marks : List Mark) (generated : List Structure) : Prop :=
  ∀ S ∈ generated, .closes (.struct S) ∈ marks ∧ .closes (.parser S) ∈ marks

theorem requireAll_grounded (required : List Structure) {seen generated : List Structure}
    {marks : List Mark} (h : Follows seen generated) (hbehind : Behind marks generated)
    (hordered : Grounded FieldsKnown seen required) :
    Grounded Mark.Needs marks (marksOfAll (requireAll required generated).1) := by
  induction required generalizing seen generated marks with
  | nil => trivial
  | cons S required ih =>
    obtain ⟨hknown, hordered⟩ := hordered
    have hnext := h.require hknown
    change Grounded Mark.Needs marks (marksOfAll ((requireStructure S generated).1 ++
      (requireAll required (requireStructure S generated).2).1))
    have hgenerated : ∀ T ∈ mentionedByFields S, T ∈ generated := fun T hT =>
      (h.same T).mpr (hknown T hT)
    rcases requireStructure_known hgenerated with
      ⟨-, heq⟩ | ⟨cs, generated', heq, -, hperm, hmarks⟩
    · rw [heq] at hnext ⊢
      exact ih hnext hbehind hordered
    · rw [heq] at hnext ⊢
      rw [marksOfAll_append, Grounded.append]
      have hneeds : ∀ T ∈ mentionedByFields S, _ := fun T hT => hbehind T (hgenerated T hT)
      constructor
      · rw [hmarks]
        simp only [Definition.around, List.nil_append, List.cons_append, Grounded, Mark.Needs,
          Definition.required, and_true, true_and]
        refine ⟨hneeds, fun T hT => ?_⟩
        have hT := hneeds T hT
        simp [hT.1, hT.2]
      · refine ih hnext (fun T hT => ?_) hordered
        rcases List.mem_append.mp (hperm.mem_iff.mp hT) with hT | hT
        · have hT := hbehind T hT
          simp [hT.1, hT.2]
        · rw [List.mem_singleton.mp hT, hmarks]
          simp [Definition.around]

theorem follows_nil : Follows [] [] := ⟨by simp [Closed], by simp⟩

/-- The definitions are in a usable order exactly where no field mentions a structure that
was not asked for before. -/
theorem definitions_ordered (calls : List Call) :
    Usable calls (output calls) ↔ Ordered calls := by
  have hdefines := run_defines calls []
  have hscope := requireAll_scoped_iff (calls.flatMap Call.required) follows_nil
  rw [← run_eq_requireAll] at hscope
  refine ⟨fun h => hscope.mp h.atNamespaceScope,
    fun h => ⟨hscope.mpr h, ?_, ?_, fun S hS => ?_, ?_⟩⟩
  all_goals have hperm := hdefines.perm
  all_goals rw [List.nil_append] at hperm
  · exact (hperm.nodup_iff.mp (hdefines.nodup List.nodup_nil)).imp different_iff.mpr
  · have hnodup := hdefines.parsersToo.nodup_iff.mpr
      (hperm.nodup_iff.mp (hdefines.nodup List.nodup_nil))
    exact hnodup.imp different_iff.mpr
  · have hmem := hperm.mem_iff.mp ((hdefines.complete (by simp [Closed])).2 S hS)
    exact ⟨hmem, hdefines.parsersToo.mem_iff.mpr hmem⟩
  · have hbehind : Behind [] [] := by simp [Behind]
    have hgrounded := requireAll_grounded _ follows_nil hbehind h
    rwa [← run_eq_requireAll] at hgrounded

/-- A structure in a field, which nothing mentioned before. -/
theorem definitions_ordered_nested :
    let inner : Structure := [(.integer ⟨0, 255⟩, [105])]
    let outer : Structure := [(.struct inner, [111])]
    ¬Usable [.requireStructure outer] (output [.requireStructure outer]) := by
  intro inner outer h
  have hscope : allAtNamespaceScope (requireStructure outer []).1 := by
    simpa [output, run, all, seq, skip, Call.run] using h.atNamespaceScope
  have hknown := known_of_scope (by simp [Closed]) hscope inner
    (by simp [outer, mentionedByFields, mentioned])
  simp at hknown

end SharedCode
end Warpcoil
