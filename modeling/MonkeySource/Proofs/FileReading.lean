import MonkeySource.File.Tokenize
import MonkeySource.Proofs.LineEnds
import MonkeySource.Proofs.Utf8

set_option autoImplicit false

/-!
# Files and texts

A file is scanned as the text that its bytes are in UTF-8, with uniform line ends. Bytes that are no
text are refused before anything of them is scanned.
-/

namespace MonkeySource

open Text.Utf8

theorem tokenizeFile_of_read {directory : Directory} {path : String} {bytes : List UInt8}
    (found : directory.read path = .ok bytes) (strict : Bool) :
    tokenizeFile directory path strict = tokenizeBytes bytes path strict := by
  rw [tokenizeFile, found]

theorem tokenizeBytes_encode (text path : String) (strict : Bool) :
    tokenizeBytes (encode text) path strict =
      (tokenizeText (Text.uniform text) path strict).mapError .rejected := by
  simp only [tokenizeBytes, readText, decode_encode]
  rfl

theorem tokenizeBytes_of_fault {bytes : List UInt8} {fault : Fault}
    (refused : decode bytes = .error fault) (path : String) (strict : Bool) :
    tokenizeBytes bytes path strict = .error (.undecodable fault) := by
  simp only [tokenizeBytes, readText, refused]
  rfl

/-- Bytes are scanned as the text they encode, or not at all. -/
theorem tokenizeBytes_cases (bytes : List UInt8) (path : String) (strict : Bool) :
    (∃ text, tokenizeBytes bytes path strict =
        (tokenizeText (Text.uniform text) path strict).mapError .rejected) ∨
      ∃ fault, tokenizeBytes bytes path strict = .error (.undecodable fault) := by
  by_cases wellFormed : WellFormed bytes
  · obtain ⟨text, rfl⟩ := wellFormed
    exact .inl ⟨text, tokenizeBytes_encode text path strict⟩
  · obtain ⟨fault, decoded, _⟩ := decode_of_not_wellFormed wellFormed
    exact .inr ⟨fault, tokenizeBytes_of_fault decoded path strict⟩

theorem exists_text_of_tokens {bytes : List UInt8} {path : String} {strict : Bool}
    {tokens : List Token} (read : tokenizeBytes bytes path strict = .ok tokens) :
    ∃ source, tokenizeText source path strict = .ok tokens := by
  rcases tokenizeBytes_cases bytes path strict with ⟨text, asText⟩ | ⟨fault, refused⟩
  · cases scanned : tokenizeText (Text.uniform text) path strict <;> rw [asText, scanned] at read
    · cases read
    · cases read
      exact ⟨_, scanned⟩
  · rw [refused] at read
    cases read

theorem exists_text_of_rejected {bytes : List UInt8} {path : String} {strict : Bool}
    {error : LexicalError} (failed : tokenizeBytes bytes path strict = .error (.rejected error)) :
    ∃ source, tokenizeText source path strict = .error error := by
  rcases tokenizeBytes_cases bytes path strict with ⟨text, asText⟩ | ⟨fault, refused⟩
  · cases scanned : tokenizeText (Text.uniform text) path strict <;> rw [asText, scanned] at failed
    · cases failed
      exact ⟨_, scanned⟩
    · cases failed
  · rw [refused] at failed
    cases failed

theorem filename_of_mem_findings {source filename : String} {finding : Finding}
    (member : finding ∈ findings source filename) : finding.location.filename = filename := by
  rw [findings_eq_filterMap] at member
  obtain ⟨token, inTokens, about⟩ := List.mem_filterMap.mp member
  have located := (location_of_mem_tokenize inTokens).1
  rw [Token.location_of_finding? about, Option.some.injEq] at located
  exact congrArg Location.filename located

/-- The refusal of bytes that begin with so many well-formed ones. Nothing is scanned before it, so
it does not depend on how strict the scan would be. -/
def RefusedAt (directory : Directory) (path : String) (position : Nat) : Prop :=
  ∃ fault, fault.position = position ∧
    ∀ strict, tokenizeFile directory path strict = .error (.undecodable fault)

/-- What comes of a file, told by its bytes. -/
structure ReadsBytes (directory : Directory) (path : String) (bytes : List UInt8) : Prop where
  text : ∀ text, encode text = bytes → ∀ strict, tokenizeFile directory path strict =
    (tokenizeText (Text.uniform text) path strict).mapError .rejected
  tokensNamed : ∀ strict tokens, tokenizeFile directory path strict = .ok tokens →
    ∀ token ∈ tokens, ∃ location, token.location = some location ∧ location.filename = path
  errorNamed : ∀ strict error, tokenizeFile directory path strict = .error (.rejected error) →
    error.diagnostic.location.filename = path
  notText : ¬ WellFormed bytes →
    ∃ size, LongestText bytes size ∧ RefusedAt directory path size
  forbidden : ∀ front width number back, Forbidden width number →
    bytes = encode front ++ (layOut width number ++ back) →
    RefusedAt directory path (encode front).length
  cutOff : ∀ front c count, 0 < count → count < (encode (String.singleton c)).length →
    bytes = encode front ++ (encode (String.singleton c)).take count →
    RefusedAt directory path (encode front).length

theorem refusedAt_of_fault {directory : Directory} {path : String} {bytes : List UInt8}
    (found : directory.read path = .ok bytes) {position : Nat}
    (refused : ∃ fault, decode bytes = .error fault ∧ fault.position = position) :
    RefusedAt directory path position := by
  obtain ⟨fault, decoded, here⟩ := refused
  refine ⟨fault, here, fun strict => ?_⟩
  rw [tokenizeFile_of_read found, tokenizeBytes_of_fault decoded]

/-- A file that is there is scanned as the text in it, under its path. What is not well-formed UTF-8
is refused where its longest well-formed part ends. -/
theorem tokenizeFile_readsBytes {directory : Directory} {path : String} {bytes : List UInt8}
    (found : directory.read path = .ok bytes) :
    ReadsBytes directory path bytes ∧ ∀ text, decode (encode text) = .ok text.toList := by
  refine ⟨?_, decode_encode⟩
  constructor
  case text =>
    rintro text rfl strict
    rw [tokenizeFile_of_read found, tokenizeBytes_encode]
  case tokensNamed =>
    intro strict tokens read token member
    rw [tokenizeFile_of_read found] at read
    obtain ⟨source, scanned⟩ := exists_text_of_tokens read
    obtain rfl := eq_tokenize_of_tokenizeText scanned
    exact ⟨_, (location_of_mem_tokenize member).1, rfl⟩
  case errorNamed =>
    intro strict error failed
    rw [tokenizeFile_of_read found] at failed
    obtain ⟨source, refused⟩ := exists_text_of_rejected failed
    exact filename_of_mem_findings (mem_findings_of_tokenizeText refused)
  case notText =>
    intro malformed
    obtain ⟨fault, decoded, longest⟩ := decode_of_not_wellFormed malformed
    exact ⟨_, longest, refusedAt_of_fault found ⟨fault, decoded, rfl⟩⟩
  case forbidden =>
    rintro front width number back forbidden rfl
    refine refusedAt_of_fault found (decode_encode_append ?_ ?_ front)
    · cases forbidden <;> simp [layOut]
    · exact fun _ _ _ spells => forbidden.not_spells spells
  case cutOff =>
    rintro front c count some_bytes short rfl
    refine refusedAt_of_fault found (decode_encode_append ?_ ?_ front)
    · rw [← List.length_pos_iff, List.length_take]
      omega
    · exact fun _ _ _ spells => take_encode_not_spells short spells

/-- A file with a byte order mark, two kinds of line end, and a character of two bytes in a string. -/
def sampleFile : Directory where
  entries := [(⟨0, ["m"]⟩, .file (encode "\ufefflet s = \"é\r\n\";\r"))]

theorem tokenizeFile_readsBytes_sample :
    sampleFile.read "m" = .ok (encode "\ufefflet s = \"é\r\n\";\r") ∧
      ReadsBytes sampleFile "m" (encode "\ufefflet s = \"é\r\n\";\r") ∧
      ∀ text, decode (encode text) = .ok text.toList := by
  have names : "m".splitOn "/" = ["m"] := by
    rw [String.splitOn, if_neg (by decide), String.splitOnAux, if_neg (by decide),
      if_neg (by decide), String.splitOnAux, if_pos (by decide)]
    decide
  have found : sampleFile.read "m" = .ok (encode "\ufefflet s = \"é\r\n\";\r") := by
    rw [Directory.read, if_neg (by decide), if_neg (by decide), names]
    rfl
  exact ⟨found, tokenizeFile_readsBytes found⟩

end MonkeySource
