import Nsq.Failure
import Nsq.Lookup.Answer
import Nsq.Proofs.Json.Plain

/-!
# Answers with and without an envelope

An older lookup service puts its answer into an envelope (`envelope`). An answer that is accepted by
itself is accepted in the envelope of success, with the same meaning, and the envelope of any other
status is refused with that status and its words; a body that is no answer, and not null, is
refused in every envelope. This is `readBody_envelope`. Whether the words are a text matters too: a
string of JSON may name half of a surrogate pair, and then the envelope is malformed.

Nothing is assumed of the body but that it is a JSON text. By the grammar of JSON it is then an
element, and so the envelope around it is a JSON text (`isText_envelope`) which holds its value.
-/

namespace Nsq.Lookup

open Json (IsText StringText)

/-- An answer in an envelope, with a status in decimal and in words. -/
def envelope (status : Int) (words body : Octets) : Octets :=
  Octets.ofString "\x7b\"status_code\":" ++ Octets.ofString (toString status) ++
    Octets.ofString ",\"status_txt\":" ++ words ++ Octets.ofString ",\"data\":" ++ body ++
    Octets.ofString "\x7d"

variable {body words : Octets} {j : Json} {s : Option String}

/-- The value of an envelope. -/
def enveloped (status : Int) (s : Option String) (j : Json) : Json :=
  .object [(some "status_code", .int status), (some "status_txt", .string s), (some "data", j)]

/-- A body that is a JSON text makes an envelope that is one, whatever else the body is. -/
theorem isText_envelope (status : Int) (hwords : StringText words s) (hbody : IsText body j) :
    IsText (envelope status words body) (enveloped status s j) := by
  have hcode := Json.written_member "status_code" (by decide)
    (Json.written_toString status).isText
  have htext := Json.written_member "status_txt" (by decide) (Json.Written.string hwords).isText
  have hdata := Json.written_member "data" (by decide) hbody
  have hall := (Json.Written.object (.members hcode (.members htext (.lastMember hdata)))).isText
  have hopen : Octets.ofString "\x7b\"status_code\":" =
      0x7B :: 0x22 :: (Octets.ofString "status_code" ++ [0x22, 0x3A]) := rfl
  have hmiddle : Octets.ofString ",\"status_txt\":" =
      0x2C :: 0x22 :: (Octets.ofString "status_txt" ++ [0x22, 0x3A]) := rfl
  have hlast : Octets.ofString ",\"data\":" =
      0x2C :: 0x22 :: (Octets.ofString "data" ++ [0x22, 0x3A]) := rfl
  have hclose : Octets.ofString "\x7d" = [0x7D] := rfl
  unfold envelope
  rw [hopen, hmiddle, hlast, hclose]
  simpa only [enveloped, List.append_assoc, List.cons_append, List.nil_append] using hall

/-- An envelope is read field by field, the answer as what may be null. -/
theorem ofJson_enveloped (status : Int) (s : Option String) (j : Json) :
    Envelope.ofJson (enveloped status s j) =
      (Json.asOption Answer.ofJson j).bind fun data =>
        (Json.asInt64 (.int status)).bind fun code =>
          s.map fun text => { status := code, statusText := text, data := data } := by
  have hfields : (enveloped status s j).fields ["status_code", "status_txt", "data"] =
      some [some (.int status), some (.string s), some j] := rfl
  unfold Envelope.ofJson
  rw [hfields]
  cases hj : Json.asOption Answer.ofJson j <;> cases hs : Json.asInt64 (.int status) <;>
    cases s <;> simp [enveloped, hj, hs, Json.optional, Json.asText]

theorem asOption_of_ne_null {α : Type} (read : Json → Option α) (h : j ≠ .null) :
    Json.asOption read j = (read j).map some := by
  cases j <;> first | rfl | exact absurd rfl h

theorem readBody_true_eq_ok_iff {answer : Answer} (hbody : IsText body j) :
    readBody body true = .ok answer ↔ Answer.ofJson j = some answer := by
  unfold readBody
  rw [Json.parse_eq_some_iff.mpr hbody]
  cases h : Answer.ofJson j <;> simp [h]

/-- The envelope of a body is read as the value of the envelope. -/
theorem readBody_envelope_eq (status : Int) (hwords : StringText words s) (hbody : IsText body j) :
    readBody (envelope status words body) false =
      match Envelope.ofJson (enveloped status s j) with
      | none => .error .malformed
      | some e =>
        if e.status = 200 then .ok (e.data.getD {})
        else .error (.status e.status e.statusText) := by
  unfold readBody
  rw [Json.parse_eq_some_iff.mpr (isText_envelope status hwords hbody)]
  rfl

/-- An envelope with a status of 64 bits, readable words and a readable answer, or null, is
accepted or refused by its status. -/
theorem readBody_envelope_of_data {status : Int} {text : String} {data : Option Answer}
    (hlow : -2 ^ 63 ≤ status) (hhigh : status < 2 ^ 63) (hwords : StringText words (some text))
    (hbody : IsText body j) (hdata : Json.asOption Answer.ofJson j = some data) :
    readBody (envelope status words body) false =
      if status = 200 then .ok (data.getD {}) else .error (.status status text) := by
  have hcode : Json.asInt64 (.int status) = some status := if_pos ⟨hlow, Int.le_sub_one_of_lt hhigh⟩
  have hread : Envelope.ofJson (enveloped status (some text) j) =
      some { status := status, statusText := text, data := data } := by
    rw [ofJson_enveloped, hdata, hcode]
    rfl
  rw [readBody_envelope_eq status hwords hbody, hread]

/-- An envelope is malformed if the words are no text or the answer is neither readable nor null. -/
theorem readBody_envelope_of_none (status : Int) (hwords : StringText words s)
    (hbody : IsText body j) (h : s = none ∨ Json.asOption Answer.ofJson j = none) :
    readBody (envelope status words body) false = .error .malformed := by
  have hread : Envelope.ofJson (enveloped status s j) = none := by
    rw [ofJson_enveloped]
    rcases h with rfl | hdata
    · -- no words, so no envelope, whatever the other fields are
      simp
    · rw [hdata, Option.bind_none]
  rw [readBody_envelope_eq status hwords hbody, hread]

/-- Half of a surrogate pair is a string of JSON that stands for no text. -/
theorem stringText_loneSurrogate : StringText (Octets.ofString "\"\\ud800\"") none :=
  .quoted (.cons (.unit (n := 0xD800) rfl) .nil)

/-- **An envelope says what its answer says.** -/
theorem readBody_envelope (hbody : IsText body j) (hwords : StringText words s) :
    (∀ answer text, readBody body true = .ok answer → s = some text →
      readBody (envelope 200 words body) false = .ok answer ∧
      ∀ status : Int, -2 ^ 63 ≤ status → status < 2 ^ 63 → status ≠ 200 →
        readBody (envelope status words body) false = .error (.status status text) ∧
        (QueryFault.body (.status status text)).message = toString status ++ " " ++ text) ∧
    (j ≠ .null → (∀ answer, readBody body true ≠ .ok answer) →
      ∀ status, readBody (envelope status words body) false = .error .malformed) ∧
    (s = none → ∀ status, readBody (envelope status words body) false = .error .malformed) := by
  refine ⟨?accepted, ?refused, ?unreadable⟩
  case accepted =>
    rintro answer text hanswer rfl
    rw [readBody_true_eq_ok_iff hbody] at hanswer
    have hnull : j ≠ .null := by
      rintro rfl
      cases hanswer
    have hdata : Json.asOption Answer.ofJson j = some (some answer) := by
      rw [asOption_of_ne_null _ hnull, hanswer, Option.map_some]
    refine ⟨?_, fun status hlow hhigh hne => ⟨?_, rfl⟩⟩
    · exact readBody_envelope_of_data (by decide) (by decide) hwords hbody hdata
    · rw [readBody_envelope_of_data hlow hhigh hwords hbody hdata, if_neg hne]
  case refused =>
    intro hnull hrefused status
    refine readBody_envelope_of_none status hwords hbody (.inr ?_)
    rw [asOption_of_ne_null _ hnull, Option.map_eq_none_iff, Option.eq_none_iff_forall_ne_some]
    intro answer hanswer
    exact hrefused answer ((readBody_true_eq_ok_iff hbody).mpr hanswer)
  case unreadable =>
    intro hs status
    exact readBody_envelope_of_none status hwords hbody (.inl hs)

/-- Three envelopes around an empty answer, one around a body that is none. -/
theorem readBody_envelope_empty :
    readBody (envelope 200 (Octets.ofString "\"OK\"") (Octets.ofString "\x7b\x7d")) false = .ok {} ∧
    readBody (envelope 500 (Octets.ofString "\"OK\"") (Octets.ofString "\x7b\x7d")) false =
      .error (.status 500 "OK") ∧
    readBody (envelope 200 (Octets.ofString "\"\\ud800\"") (Octets.ofString "\x7b\x7d")) false =
      .error .malformed ∧
    readBody (envelope 200 (Octets.ofString "\"OK\"") (Octets.ofString "true")) false =
      .error .malformed := by
  have hempty : IsText (Octets.ofString "\x7b\x7d") (.object []) :=
    (Json.Written.emptyObject Json.blank_nil).isText
  have hok : StringText (Octets.ofString "\"OK\"") (some "OK") :=
    Json.stringText_of_plain (s := "OK") (by decide)
  have hread : readBody (Octets.ofString "\x7b\x7d") true = .ok {} :=
    (readBody_true_eq_ok_iff hempty).mpr rfl
  obtain ⟨haccepted, hstatus⟩ := (readBody_envelope hempty hok).1 {} "OK" hread rfl
  refine ⟨haccepted, (hstatus 500 (by decide) (by decide) (by decide)).1, ?_, ?_⟩
  · exact (readBody_envelope hempty stringText_loneSurrogate).2.2 rfl 200
  · refine (readBody_envelope Json.Written.true.isText hok).2.1 nofun (fun answer h => ?_) 200
    rw [readBody_true_eq_ok_iff Json.Written.true.isText] at h
    cases h

/-- Words that are half of a surrogate pair make an envelope unreadable that holds an answer. -/
theorem readBody_envelope_loneSurrogate :
    StringText (Octets.ofString "\"\\ud800\"") none ∧
    readBody (Octets.ofString "\x7b\x7d") true = .ok {} ∧
    readBody (envelope 200 (Octets.ofString "\"\\ud800\"") (Octets.ofString "\x7b\x7d")) false ≠
      .ok {} := by
  have hempty : IsText (Octets.ofString "\x7b\x7d") (.object []) :=
    (Json.Written.emptyObject Json.blank_nil).isText
  refine ⟨stringText_loneSurrogate, (readBody_true_eq_ok_iff hempty).mpr rfl, ?_⟩
  rw [readBody_envelope_of_none 200 stringText_loneSurrogate hempty (.inl rfl)]
  nofun

end Nsq.Lookup
