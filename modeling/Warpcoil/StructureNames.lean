import Warpcoil.DefinitionOrder
import Warpcoil.Library.Separated

/-! The names of the generated structures. They are made of the field names alone. -/
namespace Warpcoil
namespace SharedCode
open Writing

def underscore : UInt8 := UInt8.ofNat '_'.toNat

/-- The words in the names of the fields, which underscores separate. -/
def fieldWords (elements : Structure) : List Identifier :=
  Separated.words underscore (elements.map Prod.snd)

theorem name_eq_iff {S T : Structure} :
    generateNameForStructure S = generateNameForStructure T ↔ fieldWords S = fieldWords T := by
  have hname : ∀ elements : Structure, elements.flatMap (fun element => underscore :: element.2) =
      Separated.joined underscore (elements.map Prod.snd) := fun elements => by
    rw [Separated.joined, List.flatMap_map]
  unfold generateNameForStructure
  generalize "structure_to_do".toList.map (fun c => UInt8.ofNat c.toNat) = front
  change front ++ S.flatMap (fun element => underscore :: element.2) =
    front ++ T.flatMap (fun element => underscore :: element.2) ↔ _
  rw [List.append_cancel_left_eq, hname, hname, Separated.joined_eq_iff, fieldWords, fieldWords]

mutual
/-- The structures that the names in a text stand for. -/
def Code.uses : Code → List Structure
  | .text _ | .name _ | .number _ => []
  | .structureName root => [root]
  | .parserType parsed => mentioned parsed
  | .block content | .scope _ content => usesOfAll content
  | .struct required content => required :: usesOfAll content
  | .parser required base content => required :: (usesOfAll base ++ usesOfAll content)
def usesOfAll : List Code → List Structure
  | [] => []
  | c::cs => c.uses ++ usesOfAll cs
end

mutual
/-- The specialisations of `structure_parser`, with the texts that name their base classes. -/
def Code.specialisations : Code → List (Structure × List Code)
  | .text _ | .name _ | .number _ | .structureName _ | .parserType _ => []
  | .block content | .scope _ content | .struct _ content => specialisationsOfAll content
  | .parser required base content =>
    (required, base) :: (specialisationsOfAll base ++ specialisationsOfAll content)
def specialisationsOfAll : List Code → List (Structure × List Code)
  | [] => []
  | c::cs => c.specialisations ++ specialisationsOfAll cs
end

/-- The parsers of the fields in the name of a base class. -/
def fieldParsers (base : List Code) : List ParserType :=
  base.filterMap fun
    | .parserType parsed => some (generateParserType parsed)
    | _ => none

/-- The structures that `require_structure` is called with for these, by the generator itself
too. -/
def allRequired (required : List Structure) : List Structure :=
  required.flatMap fun S => S :: occurringInFields S

/-- Every name stands for one structure. -/
structure NamesTellApart (required : List Structure) (cs : List Code) : Prop where
  differ : ∀ S ∈ allRequired required, ∀ T ∈ allRequired required, Different S T →
    generateNameForStructure S ≠ generateNameForStructure T
  structsOnce : ((structs cs).map generateNameForStructure).Nodup
  parsersOnce : ((parsers cs).map generateNameForStructure).Nodup
  parses : ∀ specialisation ∈ specialisationsOfAll cs, ∀ S ∈ usesOfAll cs,
    generateNameForStructure specialisation.1 = generateNameForStructure S →
      fieldParsers specialisation.2 = generateElementParserTypes S

@[simp] theorem usesOfAll_append (cs ds : List Code) :
    usesOfAll (cs ++ ds) = usesOfAll cs ++ usesOfAll ds := by
  induction cs with
  | nil => simp [usesOfAll]
  | cons c cs ih => simp [usesOfAll, ih]

@[simp] theorem specialisationsOfAll_append (cs ds : List Code) :
    specialisationsOfAll (cs ++ ds) = specialisationsOfAll cs ++ specialisationsOfAll ds := by
  induction cs with
  | nil => simp [specialisationsOfAll]
  | cons c cs ih => simp [specialisationsOfAll, ih]

/-- The names stand for structures of the list, and every specialisation is for one of them and
has the parsers of its fields. -/
structure Within (listed : List Structure) (cs : List Code) : Prop where
  uses : ∀ S ∈ usesOfAll cs, S ∈ listed
  parsers : ∀ specialisation ∈ specialisationsOfAll cs, specialisation.1 ∈ listed ∧
    fieldParsers specialisation.2 = generateElementParserTypes specialisation.1

namespace Within
variable {listed : List Structure} {cs ds : List Code}

theorem append (h : Within listed cs) (h' : Within listed ds) : Within listed (cs ++ ds) := by
  refine ⟨fun S hS => ?_, fun p hp => ?_⟩
  · rw [usesOfAll_append, List.mem_append] at hS
    exact hS.elim (h.uses S) (h'.uses S)
  · rw [specialisationsOfAll_append, List.mem_append] at hp
    exact hp.elim (h.parsers p) (h'.parsers p)

theorem text (huses : ∀ S ∈ usesOfAll cs, S ∈ listed) (h : specialisationsOfAll cs = []) :
    Within listed cs :=
  ⟨huses, by simp [h]⟩

theorem nil : Within listed [] := ⟨by simp [usesOfAll], by simp [specialisationsOfAll]⟩

theorem struct {S : Structure} (hS : S ∈ listed) (h : Within listed cs) :
    Within listed [.struct S cs] := by
  refine ⟨fun T hT => ?_, fun p hp => h.parsers p ?_⟩
  · simp only [usesOfAll, Code.uses, List.append_nil, List.mem_cons] at hT
    rcases hT with hT | hT
    · rwa [hT]
    · exact h.uses T hT
  · simpa [specialisationsOfAll, Code.specialisations] using hp

theorem scope {name : String} (h : Within listed cs) : Within listed [.scope name cs] :=
  ⟨by simpa [usesOfAll, Code.uses] using h.uses,
    by simpa [specialisationsOfAll, Code.specialisations] using h.parsers⟩

theorem parser {S : Structure} {base : List Code} (hS : S ∈ listed) (hbase : Within listed base)
    (hfields : fieldParsers base = generateElementParserTypes S) (h : Within listed cs) :
    Within listed [.parser S base cs] := by
  have hboth := hbase.append h
  refine ⟨fun T hT => ?_, fun p hp => ?_⟩
  · simp only [usesOfAll, Code.uses, List.append_nil, List.mem_cons] at hT
    rcases hT with hT | hT
    · rwa [hT]
    · exact hboth.uses T (by simpa using hT)
  · simp only [specialisationsOfAll, Code.specialisations, List.append_nil, List.mem_cons] at hp
    rcases hp with hp | hp
    · rw [hp]
      exact ⟨hS, hfields⟩
    · exact hboth.parsers p (by simpa using hp)

end Within

section Generators
variable {listed : List Structure}

abbrev StaysWithin (listed : List Structure) (m : Generating) : Prop :=
  m.Does fun _ cs _ => Within listed cs

theorem StaysWithin.seq {m n : Generating} (hm : StaysWithin listed m)
    (hn : StaysWithin listed n) : StaysWithin listed (m.seq n) :=
  Does.seq hm hn fun _ _ _ _ _ => .append

theorem append_within (code : Sink) {c : Code} (h : Within listed [c]) :
    StaysWithin listed (code.append c) := by
  cases code with
  | shared => exact fun _ => h
  | other => exact fun _ => .nil

theorem text_within (text : String) : Within listed [.text text] :=
  .text (by simp [usesOfAll, Code.uses]) (by simp [specialisationsOfAll, Code.specialisations])

theorem parserBase_within {S : Structure} (hS : S ∈ listed)
    (hfields : ∀ T ∈ mentionedByFields S, T ∈ listed) : Within listed (parserBase S) := by
  have helements : ∀ elements : Structure, (∀ T ∈ mentionedByFields elements, T ∈ listed) →
      Within listed (elements.flatMap fun e => [.text ", ", .parserType e.1]) := by
    intro elements hall
    induction elements with
    | nil => exact .nil
    | cons element elements ih =>
      rw [mentionedByFields, List.flatMap_cons] at hall
      refine .append (.text (fun T hT => ?_)
        (by simp [specialisationsOfAll, Code.specialisations]))
        (ih fun T hT => hall T (List.mem_append_right _ hT))
      refine hall T (List.mem_append_left _ ?_)
      simpa [usesOfAll, Code.uses] using hT
  refine .append (.append (.text ?_ (by simp [specialisationsOfAll, Code.specialisations]))
    (helements S hfields)) (text_within _)
  simp [usesOfAll, Code.uses, hS]

theorem fieldParsers_parserBase (S : Structure) :
    fieldParsers (parserBase S) = generateElementParserTypes S := by
  have helements : ∀ elements : Structure,
      fieldParsers (elements.flatMap fun e => [.text ", ", .parserType e.1]) =
        generateElementParserTypes elements := by
    intro elements
    induction elements with
    | nil => rfl
    | cons element elements ih =>
      rw [generateElementParserTypes, ← ih]
      rfl
  have hall := helements S
  simp only [fieldParsers] at hall
  simpa [parserBase, fieldParsers] using hall

theorem generateParser_within {S : Structure} {getters : Generating} (hS : S ∈ listed)
    (hfields : ∀ T ∈ mentionedByFields S, T ∈ listed) (h : StaysWithin listed getters) :
    StaysWithin listed (generateParser S getters) := by
  cases S with
  | nil =>
    have hmembers : Within listed (emptyParser []) :=
      .text (by simp [emptyParser, usesOfAll, Code.uses, hS])
        (by simp [emptyParser, specialisationsOfAll, Code.specialisations])
    exact fun _ => .parser hS (text_within _) rfl hmembers
  | cons element elements =>
    exact fun generated => .parser hS (parserBase_within hS hfields) (fieldParsers_parserBase _)
      (h generated)

theorem requireWith_within {S : Structure} {members getters : Generating} (hS : S ∈ listed)
    (hfields : ∀ T ∈ occurringInFields S, T ∈ listed) (hmembers : StaysWithin listed members)
    (hgetters : StaysWithin listed getters) :
    StaysWithin listed (requireWith S members getters) := by
  have hmentioned : ∀ T ∈ mentionedByFields S, T ∈ listed := fun T hT =>
    hfields T (occurringInFields_of_mentioned S T hT)
  have hstruct : StaysWithin listed (members.inside (.struct S)) :=
    hmembers.inside fun _ _ _ h => .struct hS h
  have hparser : StaysWithin listed
      (((generateParser S getters).inside (.scope "cpp")).inside (.scope "warpcoil")) :=
    ((generateParser_within hS hmentioned hgetters).inside fun _ _ _ h => .scope h).inside
      fun _ _ _ h => .scope h
  have hinsert : StaysWithin listed (insert S) := fun _ => .nil
  have hskip : StaysWithin listed skip := fun _ => .nil
  intro generated
  rw [requireWith]
  split_ifs with hfound
  · exact .nil
  · exact (hstruct.seq (hparser.seq (hinsert.seq hskip))) generated

theorem between_within (code : Sink) (left right : String) {m : Generating}
    (h : StaysWithin listed m) :
    StaysWithin listed ((code.append (.text left)).seq (m.seq (code.append (.text right)))) :=
  (append_within code (text_within left)).seq (h.seq (append_within code (text_within right)))

mutual
theorem generateType_within : ∀ (t : Ty) (code : Sink), (∀ S ∈ occurring t, S ∈ listed) →
    StaysWithin listed (generateType code t)
  | .integer _, code, _ | .utf8 _, code, _ => by
    rw [generateType]
    exact append_within code (text_within _)
  | .variant elements, code, h | .tuple elements, code, h => by
    rw [occurring] at h
    rw [generateType]
    exact between_within code _ _ (generateElements_within elements code true h)
  | .vector _ element, code, h => by
    rw [occurring] at h
    rw [generateType]
    exact between_within code _ _ (generateType_within element code h)
  | .struct elements, code, h => by
    simp only [occurring, List.forall_mem_cons] at h
    rw [generateType]
    have hname : Within listed [.structureName elements] :=
      .text (by simpa [usesOfAll, Code.uses] using h.1)
        (by simp [specialisationsOfAll, Code.specialisations])
    exact (requireWith_within h.1 h.2 (generateMembers_within elements h.2)
      (generateGetters_within elements elements 0 h.1 h.2)).seq (append_within code hname)
theorem generateElements_within : ∀ (ts : List Ty) (code : Sink) (first : Bool),
    (∀ S ∈ occurringInAll ts, S ∈ listed) → StaysWithin listed (generateElements code first ts)
  | [], _, _, _ => by
    rw [generateElements]
    exact fun _ => .nil
  | t::ts, code, first, h => by
    simp only [occurringInAll, List.forall_mem_append] at h
    rw [generateElements]
    have hcomma : StaysWithin listed (if first then skip else code.append (.text ", ")) := by
      cases first with
      | true => exact fun _ => .nil
      | false => exact append_within code (text_within _)
    exact hcomma.seq ((generateType_within t code h.1).seq
      (generateElements_within ts code false h.2))
theorem generateMembers_within : ∀ elements : Structure,
    (∀ S ∈ occurringInFields elements, S ∈ listed) → StaysWithin listed (generateMembers elements)
  | [], _ => by
    rw [generateMembers]
    exact fun _ => .nil
  | (t, name)::elements, h => by
    simp only [occurringInFields, List.forall_mem_append] at h
    rw [generateMembers]
    have htext : Within listed [.text " ", .name name, .text ";\n"] :=
      .text (by simp [usesOfAll, Code.uses]) (by simp [specialisationsOfAll, Code.specialisations])
    exact StaysWithin.seq (generateType_within t .shared h.1)
      (StaysWithin.seq (fun _ => htext) (generateMembers_within elements h.2))
theorem generateGetters_within : ∀ (elements required : Structure) (index : Nat),
    required ∈ listed → (∀ S ∈ occurringInFields elements, S ∈ listed) →
    StaysWithin listed (generateGetters required index elements)
  | [], _, _, _, _ => by
    rw [generateGetters]
    exact fun _ => .nil
  | (t, name)::elements, required, index, hrequired, h => by
    simp only [occurringInFields, List.forall_mem_append] at h
    rw [generateGetters]
    have htext : Within listed [.text " &get(", .structureName required,
        .text " &result, std::integral_constant<std::size_t, ", .number index,
        .text ">) const\n", .block [.text "return result.", .name name, .text ";\n"]] :=
      .text (by simpa [usesOfAll, Code.uses] using hrequired)
        (by simp [specialisationsOfAll, Code.specialisations])
    exact StaysWithin.seq (generateType_within t .shared h.1)
      (StaysWithin.seq (fun _ => htext)
        (generateGetters_within elements required (index + 1) hrequired h.2))
end

theorem requireAll_within (required : List Structure)
    (h : ∀ S ∈ allRequired required, S ∈ listed) : StaysWithin listed (requireAll required) := by
  induction required with
  | nil => exact fun _ => .nil
  | cons S required ih =>
    simp only [allRequired, List.flatMap_cons, List.forall_mem_append, List.forall_mem_cons] at h
    obtain ⟨⟨hS, hfields⟩, hrest⟩ := h
    exact StaysWithin.seq (requireWith_within hS hfields (generateMembers_within S hfields)
      (generateGetters_within S S 0 hS hfields)) (ih hrest)

end Generators

/-- The text for some required structures. -/
abbrev requiredOutput (required : List Structure) : List Code :=
  output (required.map Call.requireStructure)

theorem names_tell_apart (required : List Structure) :
    NamesTellApart required (requiredOutput required) ↔
      ∀ S ∈ allRequired required, ∀ T ∈ allRequired required, Different S T →
        fieldWords S ≠ fieldWords T := by
  constructor
  · intro h S hS T hT hdifferent heq
    exact h.differ S hS T hT hdifferent (name_eq_iff.mpr heq)
  · intro h
    have hname : ∀ S ∈ allRequired required, ∀ T ∈ allRequired required,
        generateNameForStructure S = generateNameForStructure T → S = T := by
      intro S hS T hT heq
      by_contra hne
      exact h S hS T hT (different_iff.mpr hne) (name_eq_iff.mp heq)
    have hdefines := run_defines (required.map Call.requireStructure) []
    have hoccurring : (required.map Call.requireStructure).flatMap Call.occurring =
        allRequired required := by
      rw [List.flatMap_map]
      rfl
    rw [hoccurring] at hdefines
    have hstructs : (structs (requiredOutput required)).Nodup := by
      have hperm := hdefines.perm
      rw [List.nil_append] at hperm
      exact hperm.nodup_iff.mp (hdefines.nodup List.nodup_nil)
    have hparsers := hdefines.parsersToo.nodup_iff.mpr hstructs
    have honly := hdefines.only
    have hwithin : Within (allRequired required) (requiredOutput required) := by
      have hrequired : (required.map Call.requireStructure).flatMap Call.required = required := by
        rw [List.flatMap_map]
        exact List.flatMap_singleton' required
      rw [requiredOutput, output, run_eq_requireAll, hrequired]
      exact requireAll_within required (fun S hS => hS) []
    refine ⟨fun S hS T hT hdifferent heq => h S hS T hT hdifferent (name_eq_iff.mp heq), ?_, ?_, ?_⟩
    · exact hstructs.map_on fun S hS T hT => hname S (honly S hS) T (honly T hT)
    · exact hparsers.map_on fun S hS T hT =>
        hname S (honly S (hdefines.parsersToo.mem_iff.mp hS))
          T (honly T (hdefines.parsersToo.mem_iff.mp hT))
    · intro specialisation hspecialisation S hS heq
      obtain ⟨hlisted, hfields⟩ := hwithin.parsers specialisation hspecialisation
      rw [hfields, hname _ hlisted S (hwithin.uses S hS) heq]

/-- The same field with another type. -/
theorem names_tell_apart_types :
    let narrow : Structure := [(.integer ⟨0, 255⟩, [97])]
    let wide : Structure := [(.integer ⟨0, 65535⟩, [97])]
    ¬NamesTellApart [narrow, wide] (requiredOutput [narrow, wide]) := by
  intro narrow wide h
  have hdifferent : Different narrow wide := different_iff.mpr (by simp [narrow, wide])
  exact h.differ narrow (by simp [allRequired]) wide (by simp [allRequired]) hdifferent rfl

end SharedCode
end Warpcoil
