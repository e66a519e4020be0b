import Mathlib.Data.List.DropRight
import Sohara.Parsing.Utf8

/-! # Responses of HTTP/1.1

A response is a status line, header fields, an empty line, and a body that is framed by its
length, by chunks, or by the end of the connection. No line of the head has a carriage return,
so the first empty line ends the head. A body in chunks has more carriage returns than what
it frames.
-/

namespace Http

open Parsing

/-- The end of a line. -/
def crlf : List UInt8 := [13, 10]

/-- The end of a head: of its last line, and an empty line. -/
def blank : List UInt8 := [13, 10, 13, 10]

/-- The octets of a reason or a field value: tabs, blanks, visible octets and those beyond
ASCII. -/
def IsText (octet : UInt8) : Prop := octet = 9 ∨ 32 ≤ octet.toNat ∧ octet ≠ 127

instance (octet : UInt8) : Decidable (IsText octet) := inferInstanceAs (Decidable (_ ∨ _))

/-- The octets of a field name: visible ASCII without delimiters. -/
def IsToken (octet : UInt8) : Prop :=
  33 ≤ octet.toNat ∧ octet.toNat ≤ 126 ∧ plain octet ∉ "\"(),/:;<=>?@[\\]\x7b\x7d".toList

instance (octet : UInt8) : Decidable (IsToken octet) := inferInstanceAs (Decidable (_ ∧ _))

/-- A blank or a tab. -/
def isSpace (octet : UInt8) : Bool := octet = 32 ∨ octet = 9

/-- A header field. -/
structure Field where
  name : List UInt8
  value : List UInt8
  named : name ≠ []
  token : ∀ octet ∈ name, IsToken octet
  text : ∀ octet ∈ value, IsText octet

namespace Field

/-- The line of a field. -/
def line (field : Field) : List UInt8 := field.name ++ 58 :: field.value

/-- Names are the same in lower and in upper case. -/
def lowercase (octet : UInt8) : UInt8 := if 65 ≤ octet ∧ octet ≤ 90 then octet + 32 else octet

/-- The field has a name, given in lower case. -/
def Called (name : String) (field : Field) : Prop :=
  field.name.map lowercase = encode name.toList

instance (name : String) (field : Field) : Decidable (field.Called name) :=
  inferInstanceAs (Decidable (_ = _))

/-- The value of a field without the blanks and tabs around it. -/
def content (field : Field) : List UInt8 :=
  (field.value.dropWhile isSpace).rdropWhile isSpace

/-- Fields with a name occur and say something. -/
def Say (name : String) (holds : List UInt8 → Prop) (fields : List Field) : Prop :=
  (∃ field ∈ fields, field.Called name) ∧
    ∀ field ∈ fields, field.Called name → holds field.content

/-- No field has a name. -/
def Silent (name : String) (fields : List Field) : Prop := ∀ field ∈ fields, ¬ field.Called name

instance (name : String) (holds : List UInt8 → Prop) [DecidablePred holds] (fields : List Field) :
    Decidable (Say name holds fields) :=
  inferInstanceAs (Decidable (_ ∧ _))

instance (name : String) (fields : List Field) : Decidable (Silent name fields) :=
  inferInstanceAs (Decidable (∀ field ∈ fields, _))

end Field

/-- The value of a digit. -/
def digit (octet : UInt8) : Option Nat :=
  if 48 ≤ octet ∧ octet ≤ 57 then some (octet.toNat - 48)
  else if 65 ≤ octet ∧ octet ≤ 70 then some (octet.toNat - 55)
  else if 97 ≤ octet ∧ octet ≤ 102 then some (octet.toNat - 87)
  else none

/-- The number that digits of a base make behind others. -/
def numberFrom (base : Nat) (value : Nat) : List UInt8 → Option Nat
  | [] => some value
  | octet :: rest =>
      match digit octet with
      | some next => if next < base then numberFrom base (value * base + next) rest else none
      | none => none

/-- The number that digits of a base make, of which there is one. -/
def number (base : Nat) (octets : List UInt8) : Option Nat :=
  if octets = [] then none else numberFrom base 0 octets

/-- What may follow the size of a chunk on its line: nothing, or a semicolon and text. -/
def IsExtension (octets : List UInt8) : Prop :=
  octets = [] ∨ (octets.dropWhile isSpace).head? = some 59 ∧ ∀ octet ∈ octets, IsText octet

/-- A chunk of a body. -/
structure Chunk where
  size : List UInt8
  extension : List UInt8
  data : List UInt8
  filled : data ≠ []
  sized : number 16 size = some data.length
  extends_ : IsExtension extension

/-- The octets of a chunk. -/
def Chunk.wire (chunk : Chunk) : List UInt8 :=
  chunk.size ++ chunk.extension ++ crlf ++ chunk.data ++ crlf

/-- What ends a body in chunks. -/
structure LastChunk where
  size : List UInt8
  extension : List UInt8
  trailers : List Field
  sized : number 16 size = some 0
  extends_ : IsExtension extension

/-- The octets of what ends a body in chunks. -/
def LastChunk.wire (last : LastChunk) : List UInt8 :=
  last.size ++ last.extension ++ crlf ++ (last.trailers.flatMap fun field => field.line ++ crlf) ++
    crlf

/-- How a body is framed. -/
inductive Framing where
  | contentLength
  | chunked (chunks : List Chunk) (last : LastChunk)
  | close

namespace Framing

/-- The octets of a body. -/
def wire (body : String) : Framing → List UInt8
  | .contentLength => encode body.toList
  | .chunked chunks last => chunks.flatMap Chunk.wire ++ last.wire
  | .close => encode body.toList

/-- The header fields say how the body is framed, and the frames are those of the body. -/
def Declared (fields : List Field) (body : String) : Framing → Prop
  | .contentLength =>
      Field.Say "content-length"
        (fun content => number 10 content = some (encode body.toList).length) fields ∧
      Field.Silent "transfer-encoding" fields
  | .chunked chunks _ =>
      Field.Say "transfer-encoding"
        (fun content => content.map Field.lowercase = encode "chunked".toList) fields ∧
      Field.Silent "content-length" fields ∧ chunks.flatMap Chunk.data = encode body.toList
  | .close => Field.Silent "transfer-encoding" fields ∧ Field.Silent "content-length" fields

end Framing

/-- **A well-formed response** with a body of text. -/
structure Response where
  code : Nat
  reason : List UInt8
  fields : List Field
  body : String
  framing : Framing
  three : code < 1000
  phrase : ∀ octet ∈ reason, IsText octet
  declared : framing.Declared fields body

namespace Response

/-- The digits of a status code. -/
def digits (response : Response) : List UInt8 :=
  [UInt8.ofNat (48 + response.code / 100), UInt8.ofNat (48 + response.code / 10 % 10),
    UInt8.ofNat (48 + response.code % 10)]

/-- The status line. -/
def statusLine (response : Response) : List UInt8 :=
  encode "HTTP/1.1 ".toList ++ response.digits ++ 32 :: response.reason

/-- The lines before the empty one. -/
def head (response : Response) : List UInt8 :=
  response.statusLine ++ response.fields.flatMap fun field => crlf ++ field.line

/-- The octets of the body, as it is framed. -/
def bodyWire (response : Response) : List UInt8 := response.framing.wire response.body

/-- The octets of a response. -/
def wire (response : Response) : List UInt8 := response.head ++ (blank ++ response.bodyWire)

/-- The status code says that the request has succeeded. -/
def Succeeds (response : Response) : Prop := 200 ≤ response.code ∧ response.code ≤ 299

instance (response : Response) : Decidable response.Succeeds :=
  inferInstanceAs (Decidable (_ ∧ _))

end Response

/-! ## Lines -/

theorem IsText.ne_return {octet : UInt8} (text : IsText octet) : octet ≠ 13 := by
  rintro rfl
  exact absurd text (by decide)

theorem IsToken.ne_return {octet : UInt8} (token : IsToken octet) : octet ≠ 13 := by
  rintro rfl
  exact absurd token (by decide)

theorem Field.return_not_mem_line (field : Field) : 13 ∉ field.line := by
  intro member
  rcases List.mem_append.mp member with inside | inside
  · exact (field.token 13 inside).ne_return rfl
  · rcases List.mem_cons.mp inside with colon | inside
    · exact absurd colon (by decide)
    · exact (field.text 13 inside).ne_return rfl

theorem Field.line_ne_nil (field : Field) : field.line ≠ [] := by
  unfold Field.line
  exact List.append_ne_nil_of_right_ne_nil _ (List.cons_ne_nil _ _)

/-- A line that is not empty does not end a head. -/
theorem splitOnce_line {line rest : List UInt8} (plain : 13 ∉ line) (filled : line ≠ []) :
    splitOnce blank (crlf ++ line ++ rest) =
      (splitOnce blank rest).map fun around => (crlf ++ line ++ around.1, around.2) := by
  cases line with
  | nil => exact absurd rfl filled
  | cons first line =>
      have unlike : 13 ≠ first := fun same => plain (same ▸ List.mem_cons_self)
      unfold blank crlf
      rw [List.append_assoc, List.cons_append, List.singleton_append,
        splitOnce_cons_of_elsewhere, splitOnce_cons_of_elsewhere,
        splitOnce_append_of_not_mem plain, Option.map_map, Option.map_map]
      · rfl
      · simp
      · simp [unlike]

theorem splitOnce_fields (fields : List Field) (rest : List UInt8) :
    splitOnce blank ((fields.flatMap fun field => crlf ++ field.line) ++ (blank ++ rest)) =
      some (fields.flatMap fun field => crlf ++ field.line, rest) := by
  induction fields with
  | nil => exact splitOnce_append blank rest
  | cons field fields ih =>
      rw [List.flatMap_cons, List.append_assoc,
        splitOnce_line field.return_not_mem_line field.line_ne_nil, ih]
      rfl

/-! ## Chunks -/

/-- What is framed stands in the chunks. -/
theorem data_sublist_wire (chunks : List Chunk) :
    (chunks.flatMap Chunk.data).Sublist (chunks.flatMap Chunk.wire) := by
  induction chunks with
  | nil => exact List.Sublist.refl _
  | cons chunk chunks ih =>
      rw [List.flatMap_cons, List.flatMap_cons]
      refine List.Sublist.append ?_ ih
      exact (List.sublist_append_right _ _).trans (List.sublist_append_left _ _)

theorem LastChunk.return_mem_wire (last : LastChunk) : 13 ∈ last.wire :=
  List.mem_append_right _ List.mem_cons_self

namespace Response

variable {response : Response} {chunks : List Chunk} {last : LastChunk}

/-- **Chunks are not the body**: they have more carriage returns. -/
theorem count_lt_count_bodyWire (framed : response.framing = .chunked chunks last) :
    (encode response.body.toList).count 13 < response.bodyWire.count 13 := by
  have declared := response.declared
  rw [framed] at declared
  obtain ⟨-, -, same⟩ := declared
  have returns : 0 < last.wire.count 13 := List.count_pos_iff.mpr last.return_mem_wire
  have fewer := (data_sublist_wire chunks).count_le 13
  rw [bodyWire, framed, Framing.wire, List.count_append, ← same]
  omega

theorem decode_bodyWire_ne (framed : response.framing = .chunked chunks last) :
    decode response.bodyWire ≠ response.body.toList := by
  intro reads
  have more := count_lt_count_bodyWire framed
  have ascii : (13 : UInt8).toNat < 0x80 := by decide
  have sent := count_decodeFrom ascii none response.bodyWire
  have written := count_decodeFrom ascii none (encode response.body.toList)
  rw [← decode, reads] at sent
  rw [← decode, decode_encode] at written
  omega

/-- Without chunks the body is sent as it is. -/
theorem bodyWire_of_not_chunked
    (plain : ∀ chunks last, response.framing ≠ .chunked chunks last) :
    response.bodyWire = encode response.body.toList := by
  unfold bodyWire
  cases framed : response.framing with
  | contentLength => rfl
  | chunked chunks last => exact absurd framed (plain chunks last)
  | close => rfl

/-! ## The head -/

theorem toNat_digits (response : Response) : ∀ octet ∈ response.digits,
    48 ≤ octet.toNat ∧ octet.toNat ≤ 57 := by
  have three := response.three
  intro octet member
  simp only [digits, List.mem_cons, List.not_mem_nil, or_false] at member
  rcases member with rfl | rfl | rfl <;> rw [UInt8.toNat_ofNat'] <;> omega

theorem digits_ne {octet : UInt8} (response : Response) (low : octet.toNat < 48) :
    octet ∉ response.digits := by
  intro member
  have digit := response.toNat_digits octet member
  omega

theorem not_mem_statusLine {octet : UInt8} (low : octet.toNat < 32) (control : octet ≠ 9) :
    octet ∉ response.statusLine := by
  have version : ∀ octet ∈ encode "HTTP/1.1 ".toList, 32 ≤ octet.toNat := by decide +kernel
  intro member
  rcases List.mem_append.mp member with first | rest
  · rcases List.mem_append.mp first with start | code
    · have large := version octet start
      omega
    · exact response.digits_ne (by omega) code
  · rcases List.mem_cons.mp rest with space | inside
    · rw [space] at low
      exact absurd low (by decide)
    · rcases response.phrase octet inside with tab | ⟨large, -⟩
      · exact control tab
      · omega

/-- **The head ends** at the first empty line. -/
theorem splitOnce_head (response : Response) (rest : List UInt8) :
    splitOnce blank (response.head ++ (blank ++ rest)) = some (response.head, rest) := by
  rw [head, List.append_assoc]
  refine (splitOnce_append_of_not_mem (not_mem_statusLine (by decide) (by decide)) _).trans ?_
  rw [← blank, splitOnce_fields]
  rfl

/-- A head that is cut does not end. -/
theorem splitOnce_take_short {count : Nat} (short : count < response.head.length + 4) :
    splitOnce blank (response.wire.take count) = none := by
  have whole : response.wire.take count = (response.head ++ blank).take count := by
    rw [wire, ← List.append_assoc]
    refine List.take_append_of_le_length ?_
    rw [List.length_append]
    exact Nat.le_of_lt short
  rw [whole]
  cases cut : splitOnce blank ((response.head ++ blank).take count) with
  | none => rfl
  | some around =>
      exfalso
      have found := occurs_of_splitOnce cut
      have ends := response.splitOnce_head []
      rw [List.append_nil] at ends
      have shorter := (occurs_of_splitOnce ends).first around.1
        (around.2 ++ (response.head ++ blank).drop count) (by
          rw [← List.append_assoc blank, ← List.append_assoc around.1, ← found.around,
            List.take_append_drop])
      have lengths := congrArg List.length found.around
      rw [List.length_take, List.length_append, List.length_append, List.length_append] at lengths
      have four : blank.length = 4 := rfl
      omega

/-- Behind the whole head stands what is left of the body. -/
theorem splitOnce_take_long {count : Nat} (long : response.head.length + 4 ≤ count) :
    splitOnce blank (response.wire.take count) =
      some (response.head, response.bodyWire.take (count - (response.head.length + 4))) := by
  have whole : response.wire.take count = response.head ++
      (blank ++ response.bodyWire.take (count - (response.head.length + 4))) := by
    have four : blank.length = 4 := rfl
    rw [wire, List.take_append, List.take_of_length_le (by omega), List.take_append,
      List.take_of_length_le (by omega), four, Nat.sub_sub]
  rw [whole, splitOnce_head]

/-- A blank before a `2` in the status line stands before the code or in the reason. -/
theorem infix_statusLine_iff (response : Response) :
    [32, 50] <:+: response.statusLine ↔
      response.code / 100 = 2 ∨ [32, 50] <:+: 32 :: response.reason := by
  have three := response.three
  have version : encode "HTTP/1.1 ".toList = [72, 84, 84, 80, 47, 49, 46, 49] ++ [32] := by decide
  have whole : response.statusLine = [72, 84, 84, 80, 47, 49, 46, 49] ++
      (32 :: (response.digits ++ 32 :: response.reason)) := by
    rw [statusLine, version, List.append_assoc, List.append_assoc]
    rfl
  have hundreds : 50 = UInt8.ofNat (48 + response.code / 100) ↔ response.code / 100 = 2 := by
    rw [← UInt8.toNat_inj, UInt8.toNat_ofNat']
    change 50 = _ ↔ _
    omega
  rw [whole, infix_append_iff_of_not_mem (by decide), List.infix_cons_iff,
    infix_append_iff_of_not_mem (response.digits_ne (by decide)), List.cons_prefix_cons]
  refine or_congr_left ?_
  rw [digits, List.cons_append, List.cons_prefix_cons, hundreds]
  exact ⟨fun starts => starts.2.1, fun success => ⟨rfl, success, List.nil_prefix⟩⟩

theorem succeeds_iff (response : Response) : response.Succeeds ↔ response.code / 100 = 2 := by
  unfold Succeeds
  omega

end Response

end Http
