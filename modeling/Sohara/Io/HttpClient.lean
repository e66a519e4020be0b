import Sohara.Builtins.FileSink
import Sohara.Io.HttpResponse

/-! # The HTTP client

A request is written to a connection, and what comes back is read to its end or to a cap. The
text is cut at the first empty line. If the first line has a blank before a `2`, what is behind
the cut is the result, whatever it is framed by. So the result is the body of a response that
succeeds only if the body is not in chunks and nothing of it is behind the cap; and a response
that does not succeed passes for one that does if its reason has a word that begins with `2`.
-/

namespace Sohara

open Parsing

/-- The parts of a URL. -/
structure UrlParts where
  host : String
  port : UInt16
  path : String

/-- The other end of a connection: whether it can be reached and written to, and what it sends
back before it closes the connection or loses it. -/
structure TcpPeer where
  connect : String → UInt16 → Except String Unit
  write : List UInt8 → Except String Unit
  reply : List UInt8 → List UInt8 × Option String

/-- What is read of the reply to what was sent, up to a limit. -/
def TcpPeer.readToEnd (limit : Nat) (sent : List UInt8) (peer : TcpPeer) :
    Except String (List UInt8) :=
  if limit ≤ (peer.reply sent).1.length then .ok ((peer.reply sent).1.take limit)
  else
    match (peer.reply sent).2 with
    | none => .ok (peer.reply sent).1
    | some message => .error message

namespace HttpClient

/-- The octets of a response that are read at most. -/
def maxBody : Nat := 4 * 1024 * 1024

/-- The text of a request. -/
def requestText (url : UrlParts) (method : String) (headers : BTreeMap String) (body : String) :
    String :=
  headers.toList.foldl (fun text header => text ++ (header.1 ++ ": " ++ header.2 ++ "\r\n"))
      (method ++ " " ++ url.path ++ " HTTP/1.1\r\nHost: " ++ url.host ++
        "\r\nConnection: close\r\n") ++
    ("Content-Length: " ++ toString body.utf8ByteSize ++ "\r\n\r\n" ++ body)

/-- The octets of a request. -/
def sentOctets (url : UrlParts) (method : String) (headers : BTreeMap String)
    (body : Option String) : List UInt8 :=
  encode (requestText url method headers (body.getD "")).toList

/-- What the octets of a response are taken for. -/
def readResponse (buffer : List UInt8) : Except Error String :=
  match splitOnce "\r\n\r\n".toList (decode buffer) with
  | none => .error (.config "malformed http response")
  | some (head, body) =>
      match (lines head).head? with
      | none => .error (.config "http response without status line")
      | some status =>
          if " 2".toList <:+: status then .ok (String.ofList body)
          else .error (.config ("http request failed: " ++ String.ofList status))

section Definitions

variable (peer : TcpPeer) (json : JsonCodec)

/-- Sends a request and reads the response. -/
def request (url : UrlParts) (method : String) (headers : BTreeMap String)
    (body : Option String) : Except Error String := do
  (peer.connect url.host url.port).mapError Error.io
  (peer.write (sentOctets url method headers body)).mapError Error.io
  let buffer ← (peer.readToEnd maxBody (sentOctets url method headers body)).mapError Error.io
  readResponse buffer

/-- The value of the text of a response: JSON if it begins like an object or an array. -/
def readValue (response : String) : Except Error Value :=
  let body := (response.toList.dropWhile isWhitespace).rdropWhile isWhitespace
  if body.head? = some '\x7b' ∨ body.head? = some '[' then
    (json.parse (String.ofList body)).mapError fun error =>
      .config ("invalid json response: " ++ error)
  else .ok (.string (String.ofList body))

/-- Gets a value. -/
def fetch (url : UrlParts) (method : String) (headers : BTreeMap String) : Except Error Value := do
  let response ← request peer url method headers none
  readValue json response

/-- Posts a value. -/
def postJson (url : UrlParts) (method : String) (headers : BTreeMap String) (payload : Value) :
    Except Error Unit := do
  let _ ← request peer url method (headers.insert "Content-Type" "application/json")
    (some (json.print payload))
  return ()

/-- The connection is refused, or lost before the request is written or the response is read. -/
def Fails (url : UrlParts) (sent : List UInt8) : Prop :=
  (∃ message, peer.connect url.host url.port = .error message) ∨
    (∃ message, peer.write sent = .error message) ∨
    (peer.reply sent).1.length < maxBody ∧ (peer.reply sent).2 ≠ none

variable (response : Http.Response)

/-- The status line has a blank before a `2`: the code begins with it, or a word of the
reason. -/
def Signals : Prop := response.Succeeds ∨ [32, 50] <:+: 32 :: response.reason

/-- The cap is within the head or the empty line behind it. -/
def CutsHead : Prop := maxBody < response.head.length + 4

instance : Decidable (CutsHead response) := inferInstanceAs (Decidable (_ < _))

/-- What is read of the body, as it is framed. -/
def bodyRead : List UInt8 := response.bodyWire.take (maxBody - (response.head.length + 4))

/-- **The body survives.** Without chunks, all of it is before the cap, or only the replacement
character that it ends with is cut. With chunks, the cap cuts them, and the octets between the
head and the cap, with the size of the first chunk, happen to be the text of the body. -/
def BodySurvives : Prop :=
  match response.framing with
  | .chunked _ _ =>
      ∃ kept cut, cut ≠ [] ∧ response.bodyWire = kept ++ cut ∧
        response.head.length + 4 + kept.length = maxBody ∧ decode kept = response.body.toList
  | _ =>
      response.wire.length ≤ maxBody ∨
        response.body.toList.getLast? = some replacement ∧ response.wire.length ≤ maxBody + 2

/-- **A faithful result**: the message body, of a response that succeeds, or an error. -/
structure Faithful (result : Except Error String) : Prop where
  body : ∀ text, result = .ok text → response.Succeeds ∧ text = response.body
  fails : ¬ response.Succeeds → ∃ error, result = .error error

end Definitions

section Law

variable {peer : TcpPeer} {json : JsonCodec} {url : UrlParts} {method : String}
  {headers : BTreeMap String} {payload : Option String} {response : Http.Response}

/-! ## What is read -/

theorem lines_decode_head (response : Http.Response) :
    (lines (decode response.head)).head? = some (decode response.statusLine) := by
  have unbroken : '\n' ∉ decode response.statusLine := by
    have absent : (10 : UInt8) ∉ response.statusLine :=
      Http.Response.not_mem_statusLine (by decide) (by decide)
    have ascii : (10 : UInt8).toNat < 0x80 := by decide
    refine List.count_eq_zero.mp ((count_decodeFrom ascii none _).trans ?_)
    exact List.count_eq_zero.mpr absent
  have filled : decode response.statusLine ≠ [] := by
    rw [Ne, decode_eq_nil_iff]
    exact List.append_ne_nil_of_right_ne_nil _ (List.cons_ne_nil _ _)
  unfold Http.Response.head
  cases response.fields with
  | nil =>
      rw [List.flatMap_nil, List.append_nil, lines, linesFrom_of_unbroken unbroken _ filled]
      rfl
  | cons field fields =>
      rw [List.flatMap_cons, Http.crlf, List.append_assoc,
        decode_append_cons (by decide) (List.forall_mem_singleton.mpr (by decide))]
      have ended : '\n' ∉ decode response.statusLine ++ ['\r'] := by
        intro member
        rcases List.mem_append.mp member with inside | last
        · exact unbroken inside
        · exact absurd (List.mem_singleton.mp last) (by decide)
      have parts : ∀ rest, decode response.statusLine ++ ([13, 10].map plain ++ rest) =
          decode response.statusLine ++ ['\r'] ++ '\n' :: rest := by
        intro rest
        rw [List.append_assoc]
        rfl
      rw [parts, lines, linesFrom_append ended, List.nil_append, stripReturn,
        List.getLast?_concat, if_pos rfl, List.dropLast_concat]
      rfl

/-- The text is cut where the octets are. -/
theorem splitOnce_decode_blank (octets : List UInt8) :
    splitOnce "\r\n\r\n".toList (decode octets) =
      (splitOnce Http.blank octets).map fun around => (decode around.1, decode around.2) := by
  have pattern : "\r\n\r\n".toList = [13, 10, 13, 10].map plain := rfl
  rw [pattern]
  exact splitOnce_decode (by decide) (by simp) octets

theorem readResponse_short (short : CutsHead response) :
    readResponse (response.wire.take maxBody) = .error (.config "malformed http response") := by
  unfold readResponse
  rw [splitOnce_decode_blank, Http.Response.splitOnce_take_short short]
  rfl

/-- **The code decides**, or a word of the reason. -/
theorem signals_iff (response : Http.Response) :
    " 2".toList <:+: decode response.statusLine ↔ Signals response := by
  have pattern : " 2".toList = [32, 50].map plain := rfl
  unfold Signals
  rw [pattern, infix_decode_iff (by decide) (List.forall_mem_singleton.mpr (by decide)),
    response.infix_statusLine_iff, response.succeeds_iff]

theorem readResponse_long (long : ¬ CutsHead response) :
    readResponse (response.wire.take maxBody) =
      if " 2".toList <:+: decode response.statusLine then
        .ok (String.ofList (decode (bodyRead response)))
      else .error (.config
        ("http request failed: " ++ String.ofList (decode response.statusLine))) := by
  unfold readResponse
  rw [splitOnce_decode_blank, Http.Response.splitOnce_take_long (Nat.not_lt.mp long)]
  simp only [Option.map_some, lines_decode_head]
  rfl

/-- **What a response is taken for**: what is read of its body, if the head is read and
signals. -/
theorem readResponse_eq_ok_iff {text : String} :
    readResponse (response.wire.take maxBody) = .ok text ↔
      ¬ CutsHead response ∧ Signals response ∧ decode (bodyRead response) = text.toList := by
  by_cases short : CutsHead response
  · rw [readResponse_short short]
    exact ⟨nofun, fun ⟨long, _⟩ => absurd short long⟩
  · rw [readResponse_long short, ← signals_iff]
    split
    · rename_i signals
      constructor
      · intro same
        rw [← Except.ok.inj same]
        exact ⟨short, signals, String.toList_ofList.symm⟩
      · rintro ⟨-, -, same⟩
        rw [same, String.ofList_toList]
    · rename_i silent
      exact ⟨nofun, fun ⟨_, signals, _⟩ => absurd signals silent⟩

/-! ## The body -/

theorem length_wire (response : Http.Response) :
    response.wire.length = response.head.length + 4 + response.bodyWire.length := by
  rw [Http.Response.wire, List.length_append, List.length_append, Nat.add_assoc]
  rfl

theorem bodySurvives_of_not_chunked
    (plain : ∀ chunks last, response.framing ≠ .chunked chunks last) :
    BodySurvives response ↔ response.wire.length ≤ maxBody ∨
      response.body.toList.getLast? = some replacement ∧
        response.wire.length ≤ maxBody + 2 := by
  unfold BodySurvives
  cases framed : response.framing with
  | contentLength => rfl
  | chunked chunks last => exact absurd framed (plain chunks last)
  | close => rfl

theorem bodySurvives_of_chunked {chunks : List Http.Chunk} {last : Http.LastChunk}
    (framed : response.framing = .chunked chunks last) :
    BodySurvives response ↔ ∃ kept cut, cut ≠ [] ∧ response.bodyWire = kept ++ cut ∧
      response.head.length + 4 + kept.length = maxBody ∧
        decode kept = response.body.toList := by
  unfold BodySurvives
  rw [framed]

/-- **When the body is read**: exactly when it survives. -/
theorem decode_bodyRead_iff (long : ¬ CutsHead response) :
    decode (bodyRead response) = response.body.toList ↔ BodySurvives response := by
  have length := length_wire response
  have room := Nat.not_lt.mp long
  have whole : response.wire.length ≤ maxBody → bodyRead response = response.bodyWire :=
    fun fits => List.take_of_length_le (by omega)
  by_cases plain : ∀ chunks last, response.framing ≠ .chunked chunks last
  · have sent := Http.Response.bodyWire_of_not_chunked plain
    rw [bodySurvives_of_not_chunked plain]
    by_cases fits : response.wire.length ≤ maxBody
    · rw [whole fits, sent, decode_encode]
      exact iff_of_true rfl (.inl fits)
    · have cut : maxBody - (response.head.length + 4) < (encode response.body.toList).length := by
        rw [← sent]
        omega
      rw [bodyRead, sent, decode_take_encode_iff cut, ← sent]
      constructor
      · rintro ⟨ends, short⟩
        exact .inr ⟨ends, by omega⟩
      · rintro (fits' | ⟨ends, short⟩)
        · exact absurd fits' fits
        · exact ⟨ends, by omega⟩
  · simp only [not_forall, not_not] at plain
    obtain ⟨chunks, last, framed⟩ := plain
    rw [bodySurvives_of_chunked framed]
    constructor
    · intro reads
      have exceeds : maxBody - (response.head.length + 4) < response.bodyWire.length := by
        by_contra fits
        rw [whole (by omega)] at reads
        exact Http.Response.decode_bodyWire_ne framed reads
      refine ⟨bodyRead response, response.bodyWire.drop (maxBody - (response.head.length + 4)),
        fun none_ => ?_, (List.take_append_drop ..).symm, ?_, reads⟩
      · have cut := congrArg List.length none_
        rw [List.length_drop, List.length_nil] at cut
        omega
      · rw [bodyRead, List.length_take]
        omega
    · rintro ⟨kept, cut, -, split, capped, reads⟩
      have read : bodyRead response = kept := by
        rw [bodyRead, split, ← capped, Nat.add_sub_cancel_left, List.take_left]
      rw [read, reads]

/-! ## The connection -/

theorem readToEnd_eq {sent : List UInt8} (kept : ¬ Fails peer url sent) :
    peer.readToEnd maxBody sent = .ok ((peer.reply sent).1.take maxBody) := by
  unfold TcpPeer.readToEnd
  split
  · rfl
  · rename_i short
    have short := Nat.not_le.mp short
    cases lost : (peer.reply sent).2 with
    | none => rw [List.take_of_length_le (Nat.le_of_lt short)]
    | some message =>
        exact absurd (.inr (.inr ⟨short, by rw [lost]; exact Option.some_ne_none _⟩)) kept

/-- **A connection that fails** is an error. -/
theorem request_of_fails (fails : Fails peer url (sentOctets url method headers payload)) :
    ∃ error, request peer url method headers payload = .error error := by
  unfold request
  cases connected : peer.connect url.host url.port with
  | error message => exact ⟨_, rfl⟩
  | ok _ =>
      cases written : peer.write (sentOctets url method headers payload) with
      | error message => exact ⟨_, rfl⟩
      | ok _ =>
          rcases fails with ⟨message, refused⟩ | ⟨message, unwritten⟩ | ⟨short, lost⟩
          · exact absurd (connected.symm.trans refused) nofun
          · exact absurd (written.symm.trans unwritten) nofun
          · obtain ⟨message, broken⟩ := Option.ne_none_iff_exists'.mp lost
            unfold TcpPeer.readToEnd
            rw [if_neg (Nat.not_le.mpr short), broken]
            exact ⟨_, rfl⟩

/-- **A connection that does not fail** gives what is read of the reply. -/
theorem request_of_not_fails (kept : ¬ Fails peer url (sentOctets url method headers payload)) :
    request peer url method headers payload =
      readResponse ((peer.reply (sentOctets url method headers payload)).1.take maxBody) := by
  unfold request
  cases connected : peer.connect url.host url.port with
  | error message => exact absurd (.inl ⟨message, connected⟩) kept
  | ok _ =>
      cases written : peer.write (sentOctets url method headers payload) with
      | error message => exact absurd (.inr (.inl ⟨message, written⟩)) kept
      | ok _ =>
          rw [readToEnd_eq kept]
          rfl

/-- **What is returned** of a well-formed response. -/
theorem request_eq_ok_iff
    (answers : (peer.reply (sentOctets url method headers payload)).1 = response.wire)
    (text : String) :
    request peer url method headers payload = .ok text ↔
      ¬ Fails peer url (sentOctets url method headers payload) ∧ ¬ CutsHead response ∧
        Signals response ∧ decode (bodyRead response) = text.toList := by
  by_cases fails : Fails peer url (sentOctets url method headers payload)
  · obtain ⟨error, failed⟩ := request_of_fails fails
    rw [failed]
    exact ⟨nofun, fun ⟨kept, _⟩ => absurd fails kept⟩
  · rw [request_of_not_fails fails, answers, readResponse_eq_ok_iff]
    exact ⟨fun read => ⟨fails, read⟩, And.right⟩

/-- **Responses are decoded faithfully** exactly when there is no result, because the connection
fails, the cap is in the head, or the status line does not signal, or when the response
succeeds and its body survives. -/
theorem request_faithful_iff (peer : TcpPeer) (url : UrlParts) (method : String)
    (headers : BTreeMap String) (payload : Option String) (response : Http.Response)
    (answers : (peer.reply (sentOctets url method headers payload)).1 = response.wire) :
    Faithful response (request peer url method headers payload) ↔
      Fails peer url (sentOctets url method headers payload) ∨ CutsHead response ∨
        ¬ Signals response ∨ response.Succeeds ∧ BodySurvives response := by
  have returns := request_eq_ok_iff answers
  constructor
  · intro faithful
    by_cases fails : Fails peer url (sentOctets url method headers payload)
    · exact .inl fails
    by_cases short : CutsHead response
    · exact .inr (.inl short)
    by_cases signals : Signals response
    · have read := (returns (String.ofList (decode (bodyRead response)))).mpr
        ⟨fails, short, signals, String.toList_ofList.symm⟩
      obtain ⟨succeeds, same⟩ := faithful.body _ read
      refine .inr (.inr (.inr ⟨succeeds, (decode_bodyRead_iff short).mp ?_⟩))
      rw [← same, String.toList_ofList]
    · exact .inr (.inr (.inl signals))
  · intro condition
    have meets : ∀ text, request peer url method headers payload = .ok text →
        response.Succeeds ∧ text = response.body := by
      intro text read
      obtain ⟨kept, long, signals, reads⟩ := (returns text).mp read
      rcases condition with fails | short | silent | ⟨succeeds, survives⟩
      · exact absurd fails kept
      · exact absurd short long
      · exact absurd signals silent
      · refine ⟨succeeds, String.toList_inj.mp ?_⟩
        rw [← reads, (decode_bodyRead_iff long).mpr survives]
    refine ⟨meets, fun unlike => ?_⟩
    cases result : request peer url method headers payload with
    | error error => exact ⟨error, rfl⟩
    | ok text => exact absurd (meets text result).1 unlike

/-- **A fetch** of a response that succeeds, and whose body survives, gives the value of the
body. -/
theorem fetch_eq_readValue (kept : ¬ Fails peer url (sentOctets url method headers none))
    (answers : (peer.reply (sentOctets url method headers none)).1 = response.wire)
    (long : ¬ CutsHead response) (succeeds : response.Succeeds) (survives : BodySurvives response) :
    fetch peer json url method headers = readValue json response.body := by
  have read := (request_eq_ok_iff answers _).mpr
    ⟨kept, long, .inl succeeds, (decode_bodyRead_iff long).mpr survives⟩
  unfold fetch
  rw [read]
  rfl

end Law

end HttpClient

namespace Sample

open HttpClient

/-- A peer that sends a response. -/
def answering (response : Http.Response) : TcpPeer where
  connect _ _ := .ok ()
  write _ := .ok ()
  reply _ := (response.wire, none)

theorem not_fails_answering (response : Http.Response) (url : UrlParts) (sent : List UInt8) :
    ¬ Fails (answering response) url sent := by
  rintro (⟨_, refused⟩ | ⟨_, unwritten⟩ | ⟨-, lost⟩)
  · cases refused
  · cases unwritten
  · exact lost rfl

def ordersUrl : UrlParts := ⟨"localhost", 8080, "/orders"⟩

/-- A greeting that is framed by its length. -/
def greeting : Http.Response where
  code := 200
  reason := encode "OK".toList
  fields := [⟨encode "Content-Length".toList, encode " 5".toList, by decide, by decide +kernel,
    by decide +kernel⟩]
  body := "hello"
  framing := .contentLength
  three := by decide
  phrase := by decide +kernel
  declared := ⟨by decide +kernel, by decide +kernel⟩

/-- The greeting is decoded faithfully. -/
theorem greeting_faithful :
    Faithful greeting (request (answering greeting) ordersUrl "GET" ∅ none) :=
  (request_faithful_iff (answering greeting) ordersUrl "GET" ∅ none greeting rfl).mpr
    (.inr (.inr (.inr ⟨by decide, .inl (by decide)⟩)))

/-- The same greeting in one chunk. -/
def chunkedGreeting : Http.Response where
  code := 200
  reason := encode "OK".toList
  fields := [⟨encode "Transfer-Encoding".toList, encode " chunked".toList, by decide,
    by decide +kernel, by decide +kernel⟩]
  body := "hello"
  framing := .chunked [⟨[53], [], encode "hello".toList, by decide, by decide, .inl rfl⟩]
    ⟨[48], [], [], by decide, .inl rfl⟩
  three := by decide
  phrase := by decide +kernel
  declared := ⟨by decide +kernel, by decide +kernel, by decide +kernel⟩

/-- A page that is not there, with a number in the reason. -/
def secondPage : Http.Response where
  code := 404
  reason := encode "No 2nd page".toList
  fields := [⟨encode "Content-Length".toList, encode " 4".toList, by decide, by decide +kernel,
    by decide +kernel⟩]
  body := "gone"
  framing := .contentLength
  three := by decide
  phrase := by decide +kernel
  declared := ⟨by decide +kernel, by decide +kernel⟩

/-- The chunks are returned for the body, and the page that is not there for one that is. -/
theorem chunks_and_failures_returned :
    ¬ Faithful chunkedGreeting (request (answering chunkedGreeting) ordersUrl "GET" ∅ none) ∧
      ¬ Faithful secondPage (request (answering secondPage) ordersUrl "GET" ∅ none) := by
  constructor
  · intro faithful
    have read : request (answering chunkedGreeting) ordersUrl "GET" ∅ none =
        .ok "5\r\nhello\r\n0\r\n\r\n" :=
      (request_eq_ok_iff rfl _).mpr
        ⟨not_fails_answering _ _ _, by decide, .inl (by decide), by decide⟩
    exact absurd (faithful.body _ read).2 (by decide)
  · intro faithful
    have read : request (answering secondPage) ordersUrl "GET" ∅ none = .ok "gone" :=
      (request_eq_ok_iff rfl _).mpr
        ⟨not_fails_answering _ _ _, by decide, .inr (by decide), by decide⟩
    exact absurd (faithful.body _ read).1 (by decide)

end Sample

end Sohara
