import HailProto.Cbor.Diagnostic
import HailProto.Codec.DiagnosticTypes
import HailProto.Codec.NotationFaithful

/-!
# Redaction

Three printers hide what a member named `token` holds, each with a test of its own. Each of them
prints a value as it prints the value with all of that taken out, so that two values that differ
there alone are printed alike.
-/

namespace HailProto.Codec

open Cbor (Value Base64 diagnosticValues diagnosticEntries)

mutual

/-- The value without what its members named `token` hold, at any depth. No payload holds a tag. -/
def hideTokens : Value → Value
  | .array values => .array (hideTokensAll values)
  | .map entries => .map (hideTokensEntries entries)
  | v => v

def hideTokensAll : List Value → List Value
  | [] => []
  | v :: values => hideTokens v :: hideTokensAll values

def hideTokensEntries : List (Value × Value) → List (Value × Value)
  | [] => []
  | (k, v) :: entries =>
    (k, if k.isText "token" then .null else hideTokens v) :: hideTokensEntries entries

end

namespace TypeScript

mutual

theorem convertToDiagnostic_hideTokens (v : Value) :
    convertToDiagnostic true (hideTokens v) = convertToDiagnostic true v := by
  cases v with
  | array values =>
    rw [hideTokens, convertToDiagnostic, convertToDiagnostic,
      convertItems_hideTokens values]
  | map entries =>
    rw [hideTokens, convertToDiagnostic, convertToDiagnostic,
      convertEntries_hideTokens entries]
  | null | bool b | int n | text s | bytes b | tag t v => rfl

theorem convertItems_hideTokens (values : List Value) :
    convertItems true (hideTokensAll values) = convertItems true values := by
  cases values with
  | nil => rfl
  | cons v values =>
    rw [hideTokensAll, convertItems, convertItems, convertToDiagnostic_hideTokens v,
      convertItems_hideTokens values]

theorem convertEntries_hideTokens (entries : List (Value × Value)) :
    convertEntries true (hideTokensEntries entries) = convertEntries true entries := by
  cases entries with
  | nil => rfl
  | cons e entries =>
    obtain ⟨k, v⟩ := e
    rw [hideTokensEntries, convertEntries, convertEntries, convertEntries_hideTokens entries]
    by_cases hk : k.isText "token" = true
    · simp only [hk, Bool.true_and, if_true]
    · simp only [hk, Bool.true_and, Bool.false_eq_true, if_false,
        convertToDiagnostic_hideTokens v]

end

namespace Notation

variable {table : FormatTable}

mutual

theorem formatValue_hideTokens (depth : Nat) (v : Value) :
    formatValue table true depth (hideTokens v) = formatValue table true depth v := by
  cases v with
  | array values =>
    rw [hideTokens, formatValue, formatValue, formatItems_hideTokens (depth + 1) values]
  | map entries =>
    rw [hideTokens, formatValue, formatValue, formatEntries_hideTokens (depth + 1) entries]
  | null | bool b | int n | text s | bytes b | tag t v => rfl

theorem formatItems_hideTokens (depth : Nat) (values : List Value) :
    formatItems table true depth (hideTokensAll values) = formatItems table true depth values := by
  cases values with
  | nil => rfl
  | cons v values =>
    rw [hideTokensAll, formatItems, formatItems, formatValue_hideTokens depth v,
      formatItems_hideTokens depth values]

theorem formatEntries_hideTokens (depth : Nat) (entries : List (Value × Value)) :
    formatEntries table true depth (hideTokensEntries entries) =
      formatEntries table true depth entries := by
  cases entries with
  | nil => rfl
  | cons e entries =>
    obtain ⟨k, v⟩ := e
    rw [hideTokensEntries, formatEntries, formatEntries, formatEntries_hideTokens depth entries]
    by_cases hk : k.isText "token" = true
    · simp only [hk, Bool.true_and, if_true]
    · simp only [hk, Bool.true_and, Bool.false_eq_true, if_false, formatValue_hideTokens depth v]

end

end Notation

end TypeScript

section CommandLine

variable {base64 : Base64}

mutual

theorem diagnostic_hideTokens (v : Value) :
    (hideTokens v).diagnostic base64 = v.diagnostic base64 := by
  cases v with
  | array values =>
    rw [hideTokens, Cbor.Value.diagnostic, Cbor.Value.diagnostic,
      diagnosticValues_hideTokens values]
  | map entries =>
    rw [hideTokens, Cbor.Value.diagnostic, Cbor.Value.diagnostic,
      diagnosticEntries_hideTokens entries]
  | null | bool b | int n | text s | bytes b | tag t v => rfl

theorem diagnosticValues_hideTokens (values : List Value) :
    diagnosticValues base64 (hideTokensAll values) = diagnosticValues base64 values := by
  cases values with
  | nil => rfl
  | cons v values =>
    rw [hideTokensAll, diagnosticValues, diagnosticValues, diagnostic_hideTokens v,
      diagnosticValues_hideTokens values]

theorem diagnosticEntries_hideTokens (entries : List (Value × Value)) :
    diagnosticEntries base64 (hideTokensEntries entries) = diagnosticEntries base64 entries := by
  cases entries with
  | nil => rfl
  | cons e entries =>
    obtain ⟨k, v⟩ := e
    have hentries := diagnosticEntries_hideTokens entries
    cases k with
    | text s =>
      rw [hideTokensEntries, diagnosticEntries, diagnosticEntries, hentries]
      by_cases hs : s = "token"
      · rw [if_pos hs, if_pos hs]
      · have hkey : (Value.text s).isText "token" = false := by
          rw [Bool.eq_false_iff, ne_eq, Value.isText_iff, Value.text.injEq]
          exact hs
        rw [if_neg hs, if_neg hs, hkey, if_neg (by decide), diagnostic_hideTokens v]
    | null | bool b | int n | bytes b | array vs | map es | tag t w => exact hentries

end

end CommandLine

/-- Two payloads that differ only in what their members named `token` hold are printed alike, by
every printer that prints both: as diagnostic JSON and in diagnostic notation with the default
redaction, and by the command line. -/
theorem redaction_hides_tokens (lib : Libraries) (type : PayloadType) (table : FormatTable)
    (base64 : Base64) (v w : HailValue) (h : hideTokens v.value = hideTokens w.value) :
    (∀ j j', TypeScript.toDiagnosticJson lib type v.value true = .ok j →
      TypeScript.toDiagnosticJson lib type w.value true = .ok j' → j = j') ∧
    (∀ s s', TypeScript.Notation.toDiagnosticNotation table v.value true = .ok s →
      TypeScript.Notation.toDiagnosticNotation table w.value true = .ok s' → s = s') ∧
    v.value.diagnostic base64 = w.value.diagnostic base64 := by
  refine ⟨?_, ?_, ?_⟩
  · intro j j' hv hw
    simp only [TypeScript.toDiagnosticJson, bind_eq_ok, Except.ok.injEq] at hv hw
    obtain ⟨_, _, _, _, rfl⟩ := hv
    obtain ⟨_, _, _, _, rfl⟩ := hw
    rw [← TypeScript.convertToDiagnostic_hideTokens v.value, h,
      TypeScript.convertToDiagnostic_hideTokens]
  · intro s s' hv hw
    simp only [TypeScript.Notation.toDiagnosticNotation, bind_eq_ok, Except.ok.injEq] at hv hw
    obtain ⟨_, _, rfl⟩ := hv
    obtain ⟨_, _, rfl⟩ := hw
    rw [← TypeScript.Notation.formatValue_hideTokens 0 v.value, h,
      TypeScript.Notation.formatValue_hideTokens]
  · rw [← diagnostic_hideTokens v.value, h, diagnostic_hideTokens]

/-- The engine of the codec, which the command line's agrees with. -/
def codecBase64 : Base64 where
  encode b := String.ofList (encodeBase64Url b)
  decode s := decodeBase64Url s.toList
  decode_encode b := by rw [String.toList_ofList, decode_encodeBase64Url]
  length_encode := TypeScript.length_asBytes_encodeBase64Url

/-- An access with this token. -/
def tokenAccess (token : List UInt8) : HailValue where
  value := .map [(.text "access", .map [(.text "type", .text "bearer"), (.text "token", .bytes token)])]
  distinct := by
    have haccess : DistinctKeys (.map [(.text "type", .text "bearer"),
        (.text "token", .bytes token)]) := by
      refine .map (by simp) fun e he => ?_
      simp only [List.mem_cons, List.not_mem_nil, or_false] at he
      rcases he with rfl | rfl
      · exact .text "bearer"
      · exact .bytes token
    refine .map (by simp) fun e he => ?_
    rw [List.mem_singleton.1 he]
    exact haccess

/-- Two tokens, one text. -/
theorem redaction_hides_tokens_access :
    (tokenAccess [1]).value.diagnostic codecBase64 = (tokenAccess [2]).value.diagnostic codecBase64 :=
  (redaction_hides_tokens plainLibraries .envelope ⟨fun _ => false, fun _ _ => rfl⟩ codecBase64
    (tokenAccess [1]) (tokenAccess [2]) rfl).2.2

end HailProto.Codec
