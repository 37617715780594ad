import Warpcoil.Library.Unicode
import Warpcoil.JavaScriptParser
import Warpcoil.NestedSerialization
import Warpcoil.RoundTrip

/-! Strings on their way between the two languages. JavaScript sends the lower byte of every code
unit and makes a code unit of every byte, which is UTF-8 for ASCII only. -/
namespace Warpcoil
namespace JavaScript
open RecordedBuffer Answering Unicode

/-- What the statements for a `utf8` write. A length of eight bytes has no `high` and no `low`. -/
def writtenText (codeUnits : Integer) (units : List UInt16) : List UInt8 :=
  BigEndian.toBytes (findNumberOfBytesRequired codeUnits.maximum)
    (if findNumberOfBytesRequired codeUnits.maximum = 8 then 0 else units.length) ++ toUtf8 units

theorem eval_length_member {scope : Identifier → Option Datum} {value : Expression}
    {units : List UInt16} (h : value.eval scope = some (.string units)) (name : Identifier) :
    (((value.member (ident "length")).member name).eval scope).bind Datum.toInteger = some 0 := by
  rw [Expression.eval, Expression.eval_length h]
  rfl

section
variable {codeUnits : Integer} {s : State} {value offset : Expression} {destination : Identifier}
  {units : List UInt16} {o : Nat}

theorem textLength_writes (hvalue : value.eval s.scope = some (.string units))
    (hoffset : offset.eval s.scope = some (.number o)) :
    ∃ ps, Writes (generateIntegerSerialization codeUnits (.member value (ident "length"))
        destination offset) s destination o ps ∧ (∀ piece ∈ ps, piece.astray = false) ∧
      ps.flatMap Piece.data =
        BigEndian.toBytes (findNumberOfBytesRequired codeUnits.maximum)
          (if findNumberOfBytesRequired codeUnits.maximum = 8 then 0 else units.length) := by
  rw [generateIntegerSerialization]
  by_cases hwide : findNumberOfBytesRequired codeUnits.maximum = 8
  · rw [if_pos hwide, if_pos hwide, hwide]
    refine ⟨[⟨false, BigEndian.toBytes 4 0⟩] ++ [⟨false, BigEndian.toBytes 4 0⟩], ?_, by simp, rfl⟩
    refine @Writes.append [_] [_] s destination o [_] [_] ?_ fun buffer => ?_
    · exact setUint_writes (.number o) hoffset (eval_length_member hvalue _)
    · refine setUint_writes (.number _) ?_ (eval_length_member hvalue _)
      exact Expression.eval_add hoffset rfl
  · rw [if_neg hwide, if_neg hwide]
    refine ⟨[⟨false, BigEndian.toBytes _ units.length⟩], ?_, by simp, List.flatMap_singleton _ _⟩
    exact setUint_writes (.number o) hoffset (Datum.toInteger_of (Expression.eval_length hvalue))

theorem text_places {buffer : ArrayBuffer} (hvalue : value.eval s.scope = some (.string units))
    (hoffset : offset.eval s.scope = some (.number o))
    (hbuffer : s.buffers destination = some buffer)
    (hsize : o + (writtenText codeUnits units).length ≤ buffer.contents.length) :
    ∃ statements buffer',
      generateSerialization (.utf8 codeUnits) value destination offset = some statements ∧
      executeAll statements s = some (s.store destination buffer') ∧
      Places buffer buffer' o (writtenText codeUnits units) := by
  obtain ⟨ps, hlength, hastray, hdata⟩ :=
    textLength_writes hvalue hoffset
  have hwrites : Writes (generateIntegerSerialization codeUnits (.member value (ident "length"))
        destination offset ++ [.set destination value
          (.add (.number (findNumberOfBytesRequired codeUnits.maximum)) offset)])
      s destination o (ps ++ [⟨false, toUtf8 units⟩]) := by
    refine hlength.append fun middle => write_writes ?_
    refine Statement.execute_set (s := s.store destination middle) ?_ hvalue
    rw [hdata, BigEndian.toBytes_length]
    exact Datum.toInteger_of ((Expression.eval_add rfl hoffset).trans (by rw [Nat.add_comm]; rfl))
  have hall : (ps ++ [(⟨false, toUtf8 units⟩ : Piece UInt8)]).flatMap Piece.data =
      writtenText codeUnits units := by
    rw [List.flatMap_append, hdata, List.flatMap_singleton, writtenText]
  have hsettled : Settled (ps ++ [⟨false, toUtf8 units⟩]) := by
    intro piece hpiece htrue
    rcases List.mem_append.mp hpiece with hfront | hlast
    · rw [hastray piece hfront] at htrue
      cases htrue
    · obtain rfl := List.mem_singleton.mp hlast
      cases htrue
  rw [← hall] at hsize ⊢
  obtain ⟨buffer', hrun, hplaces⟩ := hsettled.writeAll hsize
  exact ⟨_, buffer', rfl, by rw [hwrites buffer hbuffer, hrun, Option.map_some], hplaces⟩

end

theorem writtenText_eq_iff {codeUnits : Integer} {text : List Char}
    (h : codeUnits.contains (utf8 text).length) :
    writtenText codeUnits (utf16 text) = encodedText codeUnits (utf8 text) ↔
      Ascii text ∧ (codeUnits.maximum.toNat < 2 ^ 32 ∨ text = []) := by
  have hwide := findNumberOfBytesRequired_eq_eight codeUnits.maximum
  rw [writtenText, encodedText]
  constructor
  · intro heq
    have hascii : Ascii text := by
      have hlength := congrArg List.length heq
      rw [List.length_append, List.length_append, BigEndian.toBytes_length,
        BigEndian.toBytes_length, toUtf8, List.length_map] at hlength
      exact utf16_length_eq_iff.mp (by omega)
    refine ⟨hascii, ?_⟩
    by_cases h8 : findNumberOfBytesRequired codeUnits.maximum = 8
    · refine .inr (Decidable.byContradiction fun hne => utf8_ne_nil hne ?_)
      rw [hascii.utf16_eq, toUtf8_ascii, if_pos h8] at heq
      have hzero := congrArg BigEndian.ofBytes (List.append_cancel_right heq)
      rw [ofBytes_encoded h, BigEndian.ofBytes_toBytes _ _ (Nat.pow_pos (by decide))] at hzero
      exact List.length_eq_zero_iff.mp hzero.symm
    · exact .inl (by omega)
  · rintro ⟨hascii, hcase⟩
    rw [hascii.utf16_eq, toUtf8_ascii, List.length_map]
    rcases hcase with hnarrow | rfl
    · rw [if_neg (by omega)]
    · rw [utf8, List.flatMap_nil, List.length_nil, ite_self]

/-- The generated parser makes a code unit of every byte. -/
theorem text_received_iff {codeUnits : Integer} {text : List Char}
    (h : codeUnits.contains (utf8 text).length) (hne : text ≠ []) :
    reactions ByteParser.step (.length (integerParserCreation codeUnits))
        (encodedText codeUnits (utf8 text)) =
      List.replicate ((encodedText codeUnits (utf8 text)).length - 1) .nothing ++
        [.returns (.string (utf16 text))] ↔
      Ascii text ∧ codeUnits.maximum.toNat < 2 ^ 32 ∧ (utf8 text).length < 2 ^ 31 := by
  have hwide := findNumberOfBytesRequired_eq_eight codeUnits.maximum
  by_cases hfits : codeUnits.maximum.toNat < 2 ^ 32 ∧ (utf8 text).length < 2 ^ 31
  · have hreactions := (text_completes (by omega) h hfits.2 (utf8_ne_nil hne)).reactions []
    rw [List.append_nil, reactions] at hreactions
    rw [hreactions, List.append_cancel_left_eq, List.cons.injEq, Reaction.returns.injEq,
      Received.string.injEq]
    constructor
    · rintro ⟨heq, -⟩
      have hlength := congrArg List.length heq
      rw [List.length_map] at hlength
      exact ⟨utf16_length_eq_iff.mp hlength.symm, hfits⟩
    · rintro ⟨hascii, -⟩
      exact ⟨hascii.utf16_eq.symm, rfl⟩
  · constructor
    · intro heq
      have hmute := text_mute h (by omega) []
      rw [List.append_nil] at hmute
      exact absurd (heq ▸ List.mem_append_right _ List.mem_cons_self) (hmute (.string (utf16 text)))
    · exact fun hall => absurd hall.2 hfits

/-- The C++ parser accepts the encoding. -/
theorem encodedText_accepted [Platform] {codeUnits : Integer} {text : List UInt8}
    (h : codeUnits.contains text.length) (hvalid : Platform.isValid text = true)
    (hsize : text.length ≤ Platform.stringMaxSize) (more : List UInt8) :
    (generateParserType (.utf8 codeUnits)).fresh.read (encodedText codeUnits text ++ more) =
      .complete (.utf8 text) more := by
  have hserialized : generateValueSerialization (.utf8 codeUnits) (.utf8 text) =
      .emit (encodedText codeUnits text) := by
    rw [generateValueSerialization, if_pos hvalid, serializeInteger_eq, if_pos h, encodedText,
      findNumberOfBytesRequired_eq]
    rfl
  have hread := read_serialized (.utf8 codeUnits) (.utf8 text) rfl (by simpa [Value.fits])
    (by rw [hserialized]; rfl) more
  rw [hserialized] at hread
  exact hread

/-- A string reaches C++ as UTF-8 exactly when it is ASCII and its length has at most four bytes,
or it is empty; and it comes back exactly when its length has no highest bit, too. -/
theorem text_unchanged [Platform] (codeUnits : Integer) (text : List Char)
    (hlength : codeUnits.contains (utf8 text).length) :
    (∀ (s : State) (value offset : Expression) (destination : Identifier) (o : Nat)
      (buffer : ArrayBuffer), value.eval s.scope = some (.string (utf16 text)) →
      offset.eval s.scope = some (.number o) → s.buffers destination = some buffer →
      o + (findNumberOfBytesRequired codeUnits.maximum + (utf16 text).length) ≤
        buffer.contents.length →
      ∃ statements buffer',
        generateSerialization (.utf8 codeUnits) value destination offset = some statements ∧
        executeAll statements s = some (s.store destination buffer') ∧
        (Places buffer buffer' o (encodedText codeUnits (utf8 text)) ↔
          Ascii text ∧ (codeUnits.maximum.toNat < 2 ^ 32 ∨ text = []))) ∧
    (Ascii text → (utf8 text).length ≤ Platform.stringMaxSize → ∀ more,
      (generateParserType (.utf8 codeUnits)).fresh.read
        (encodedText codeUnits (utf8 text) ++ more) = .complete (.utf8 (utf8 text)) more) ∧
    ∀ parser, text ≠ [] → generateParserCreation (.utf8 codeUnits) = some parser →
      (reactions ByteParser.step parser (encodedText codeUnits (utf8 text)) =
          List.replicate ((encodedText codeUnits (utf8 text)).length - 1) .nothing ++
            [.returns (.string (utf16 text))] ↔
        Ascii text ∧ codeUnits.maximum.toNat < 2 ^ 32 ∧ (utf8 text).length < 2 ^ 31) := by
  refine ⟨?_, ?_, ?_⟩
  · intro s value offset destination o buffer hvalue hoffset hbuffer hsize
    have hwritten : (writtenText codeUnits (utf16 text)).length =
        findNumberOfBytesRequired codeUnits.maximum + (utf16 text).length := by
      rw [writtenText, List.length_append, BigEndian.toBytes_length, toUtf8, List.length_map]
    have hfits : o + (writtenText codeUnits (utf16 text)).length ≤ buffer.contents.length := by
      omega
    obtain ⟨statements, buffer', hstatements, hrun, hplaces⟩ :=
      text_places hvalue hoffset hbuffer hfits
    refine ⟨statements, buffer', hstatements, hrun, ?_⟩
    rw [← writtenText_eq_iff hlength]
    constructor
    · exact fun hencoded => hplaces.data_eq hencoded
    · exact fun heq => heq ▸ hplaces
  · exact fun hascii hsize more =>
      encodedText_accepted hlength (Platform.isValid_ascii _ hascii.lt) hsize more
  · intro parser hne hparser
    rw [generateParserCreation, Option.some.injEq] at hparser
    subst hparser
    exact text_received_iff hlength hne

theorem text_unchanged_ascii :
    reactions ByteParser.step (.length (integerParserCreation ⟨0, 255⟩))
        (encodedText ⟨0, 255⟩ (utf8 ['H', 'i'])) =
      List.replicate 2 .nothing ++ [.returns (.string (utf16 ['H', 'i']))] :=
  ((@text_unchanged Platform.reference ⟨0, 255⟩ ['H', 'i'] (by decide)).2.2 _ (by decide) rfl).mpr
    ⟨by decide, by decide, by decide⟩

/-- The letter `ä` is sent as one byte and received as two letters. -/
theorem text_unchanged_umlaut :
    let buffer : ArrayBuffer := ⟨[0, 0, 0], []⟩
    let s : State := ⟨fun name => if name = ident "t" then some (.string (utf16 ['ä'])) else none,
      fun _ => some buffer, []⟩
    encodedText ⟨0, 255⟩ (utf8 ['ä']) = [2, 0xc3, 0xa4] ∧
    (∃ statements s' buffer', generateSerialization (.utf8 ⟨0, 255⟩) (.variable (ident "t"))
        (ident "b") (.number 0) = some statements ∧
      executeAll statements s = some s' ∧ s'.buffers (ident "b") = some buffer' ∧
      buffer'.contents = [1, 0xe4, 0] ∧ ¬ Places buffer buffer' 0 [2, 0xc3, 0xa4]) ∧
    utf16 ['ä'] = [0xe4] ∧
      reactions ByteParser.step (.length (integerParserCreation ⟨0, 255⟩)) [2, 0xc3, 0xa4] =
        [.nothing, .nothing, .returns (.string [0xc3, 0xa4])] := by
  refine ⟨by decide, ⟨_, _, _, rfl, rfl, rfl, rfl, fun hplaces => ?_⟩, by decide, rfl⟩
  cases hplaces.contents

end JavaScript

end Warpcoil
