import ADEiger.EigerParamClamp
import ADEiger.FrozenDocument
import ADEiger.RestResponse

/-! The number of the armed series.
`arm` asks for it like a `put` that wants a reply; the body of the answer is a JSON document in
which the number has one of two names. -/
namespace RestSequence

open CString (Text NUL)
open EigerParams (IntLiteral sscanfInt scanInt_literal toInt)
open Frozen (JsonToken MemberTokens parseJson findJsonToken parseJson_document findJsonToken_eq
  findJsonToken_none parsesTo_number)
open Json (Document HasMember Member)
open RestResponse

variable {t received : Text} {ms : List Member}

def MAX_JSON_TOKENS : ℕ := 100
def SEQUENCE_ID : Text := "sequence id".toList
def SERIES_ID : Text := "series id".toList

/-- `sscanf` reads on behind the token, where no digit follows. -/
def parseSequenceId (content : Text) : Option ℤ :=
  if content = [] then none
  else
    match parseJson MAX_JSON_TOKENS content with
    | none => none
    | some tokens =>
      if tokens.head?.map (·.type) ≠ some .object then none
      else
        match findJsonToken tokens SEQUENCE_ID with
        | some (seqIdToken :: _) => sscanfInt seqIdToken.text
        | _ =>
          match findJsonToken tokens SERIES_ID with
          | some (seqIdToken :: _) => sscanfInt seqIdToken.text
          | _ => none

inductive Armed where
  | undefined
  | failure
  | success (sequenceId : Option ℤ)
  deriving DecidableEq

/-- `wanted` when there is a place for the number. -/
def arm (wanted : Bool) (behind : Stack) (recvs : List Text) : Armed :=
  match (Call.put wanted).result behind.bytes recvs with
  | .undefined => .undefined
  | .failure => .failure
  | .success none => .success none
  | .success (some content) =>
    match parseSequenceId content with
    | none => .failure
    | some sequenceId => .success (some sequenceId)

/-- The number that the members of the answer give. -/
inductive Numbered (ms : List Member) : Option ℤ → Prop where
  | sequence {text n} : HasMember ms SEQUENCE_ID text → Json.Number text → IntLiteral n text →
      Numbered ms (some (toInt n))
  | series {text n} : (∀ m ∈ ms, m.key ≠ SEQUENCE_ID) → HasMember ms SERIES_ID text →
      Json.Number text → IntLiteral n text → Numbered ms (some (toInt n))
  | missing : (∀ m ∈ ms, m.key ≠ SEQUENCE_ID) → (∀ m ∈ ms, m.key ≠ SERIES_ID) → Numbered ms none

section Document

variable {tokens : List JsonToken} {name text : Text} {n : ℤ} {seqId : Option ℤ}

theorem findJsonToken_number (hname : Frozen.OneName name) (h : Document t ms) (hx : parseJson MAX_JSON_TOKENS t = some tokens)
    (hm : HasMember ms name text) (hnumber : Json.Number text) :
    ∃ more, findJsonToken tokens name = some (⟨.number, text, 0⟩ :: more) :=
  findJsonToken_eq hname h (by decide) hx hm (parsesTo_number hnumber)

theorem sscanfInt_literal (h : IntLiteral n text) : sscanfInt text = some (toInt n) := by
  rw [sscanfInt, scanInt_literal h]
  rfl

/-- A document is read when it has no more tokens than there is place for. -/
theorem parseSequenceId_document (h : Document t ms) (hid : Numbered ms seqId) :
    ∃ toks, MemberTokens ms toks ∧
      parseSequenceId t = if toks.length + 2 ≤ MAX_JSON_TOKENS then seqId else none := by
  obtain ⟨text, toks, htoks, hparse⟩ :=
    parseJson_document h (by decide : 0 < MAX_JSON_TOKENS)
  refine ⟨toks, htoks, ?_⟩
  have hne : t ≠ [] := by
    obtain ⟨before, after, -, -, rfl⟩ := h.text
    exact List.append_ne_nil_of_right_ne_nil _ (List.cons_ne_nil _ _)
  rw [parseSequenceId, if_neg hne]
  by_cases hfits : toks.length + 2 ≤ MAX_JSON_TOKENS
  · rw [if_pos hfits] at hparse ⊢
    rw [hparse]
    dsimp only
    rw [if_neg fun hno => hno rfl]
    cases hid with
    | sequence hm hnumber hlit =>
      obtain ⟨more, hfind⟩ := findJsonToken_number (by decide) h hparse hm hnumber
      rw [hfind]
      exact sscanfInt_literal hlit
    | series hno hm hnumber hlit =>
      obtain ⟨more, hfind⟩ := findJsonToken_number (by decide) h hparse hm hnumber
      rw [findJsonToken_none (by decide) h (by decide) hparse hno, hfind]
      exact sscanfInt_literal hlit
    | missing hno hno' =>
      rw [findJsonToken_none (by decide) h (by decide) hparse hno,
        findJsonToken_none (by decide) h (by decide) hparse hno']
  · rw [if_neg hfits] at hparse ⊢
    rw [hparse]

end Document

section Answer

variable {r : RestResponse.Response} {recvs : List Text} {more : Text} {call : Call}

theorem receive_arrived (hr : r.WellFormed) (hsplit : received ++ more = r.bytes)
    (hmax : received.length ≤ MAX_MESSAGE_SIZE) (hwants : call.wantsBody = true)
    (harrives : Arrives call r received) (behind : Stack) :
    call.receive behind.bytes received =
      if r.code = 200 then .success (some r.body) else .failure := by
  have hprefix : r.header <+: received :=
    List.prefix_of_prefix_length_le (List.prefix_append r.header r.body) ⟨more, hsplit⟩
      harrives.header
  obtain ⟨rest, hreceived⟩ := hprefix
  have hreceived : received = r.header ++ rest := hreceived.symm
  have hbody : r.body = rest ++ more := by
    rw [hreceived, List.append_assoc] at hsplit
    exact (List.append_cancel_left hsplit).symm
  have h0 : NUL ∈ rest ++ behind.bytes := List.mem_append_right rest behind.terminated
  rw [receive_header hr hreceived hbody hmax h0 harrives.connection]
  by_cases h200 : r.code = 200
  · have hall : more = [] := by
      have hlen := congrArg List.length hsplit
      have hle := harrives.body hwants h200
      rw [List.length_append] at hlen
      exact List.eq_nil_of_length_eq_zero (by omega)
    rw [if_neg (not_not.mpr h200), if_neg (by rw [hwants]; decide), if_pos hall, if_pos h200]
  · rw [if_pos h200, if_neg h200]

/-- What arm gives is what the detector answered, whatever the rest of the answer is. -/
theorem armed_as_answered (hr : r.WellFormed) (hdocument : Document r.body ms) {seqId : Option ℤ}
    (hid : Numbered ms seqId) (hsplit : (received :: recvs).flatten = r.bytes)
    (hmax : received.length ≤ MAX_MESSAGE_SIZE) (harrives : Arrives (.put true) r received)
    (behind : Stack) : ∃ toks, MemberTokens ms toks ∧ arm true behind (received :: recvs) =
      if r.code = 200 ∧ toks.length + 2 ≤ MAX_JSON_TOKENS then
        seqId.elim .failure fun n => .success (some n)
      else .failure := by
  obtain ⟨toks, htoks, hparse⟩ := parseSequenceId_document hdocument hid
  refine ⟨toks, htoks, ?_⟩
  have hreceive := receive_arrived hr hsplit hmax rfl harrives behind
  rw [arm, Call.result, hreceive]
  by_cases h200 : r.code = 200
  · rw [if_pos h200]
    dsimp only
    rw [hparse]
    by_cases hfits : toks.length + 2 ≤ MAX_JSON_TOKENS
    · rw [if_pos hfits, if_pos ⟨h200, hfits⟩]
      cases seqId with
      | none => rfl
      | some n => rfl
    · rw [if_neg hfits, if_neg fun h => hfits h.2]
  · rw [if_neg h200, if_neg fun h => h200 h.1]

end Answer

def armMembers : List Member := [Json.spaced SEQUENCE_ID ['7']]

/-- The answer of a detector that armed its seventh series. -/
def armResponse : RestResponse.Response :=
  ⟨"HTTP/1.1".toList, 200, "OK".toList, [⟨"Content-Length".toList, " 18".toList⟩],
    Json.objectText armMembers⟩

theorem armResponse_wellFormed : armResponse.WellFormed where
  version_ne := by decide +kernel
  version_word := by decide +kernel
  reason := by decide +kernel
  fields f hf := by
    rw [List.mem_singleton.mp hf]
    refine ⟨by decide +kernel, by decide +kernel, by decide +kernel, fun _ => ?_,
      fun h => absurd h (by decide +kernel)⟩
    exact ⟨[' '], ['1', '8'], [], rfl, by decide, by decide, by decide, by decide, rfl⟩
  announced := ⟨_, List.mem_cons_self, by decide +kernel⟩

theorem armMembers_document : Document armResponse.body armMembers := by
  refine Json.document_objectText (List.cons_ne_nil _ _) (by decide) ?_
  exact List.forall_mem_singleton.mpr (.number (Json.number_toDigits 7))

theorem armed_seventh : ∃ toks, MemberTokens armMembers toks ∧
    arm true ⟨[NUL], List.mem_singleton_self NUL⟩ [armResponse.bytes] =
      if armResponse.code = 200 ∧ toks.length + 2 ≤ MAX_JSON_TOKENS then
        .success (some (toInt 7))
      else .failure :=
  armed_as_answered armResponse_wellFormed armMembers_document
    (.sequence (by decide) (Json.number_toDigits 7) ⟨['7'], by decide, by decide, .inl ⟨rfl, rfl⟩⟩)
    (List.append_nil _) (by decide +kernel)
    ⟨by decide +kernel, fun _ _ => le_rfl, by decide +kernel⟩ _

end RestSequence
