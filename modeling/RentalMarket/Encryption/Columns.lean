import RentalMarket.Encryption.FieldEncryption
import RentalMarket.Lib.Runs
import Mathlib.Logic.Function.Basic

namespace RentalMarket.Encryption

open Base64 Runs

/-- The two tables that have an encrypted column, `addresses` with the user as
the context of a row and `listing_locations` with the listing. -/
inductive Table where
  | addresses
  | listingLocations
  deriving DecidableEq, Repr

abbrev RowId := Table × String

/-- The street lines that a store writes are one JSON text. -/
structure Written where
  iv : Bytes
  context : String
  detail : String
  deriving DecidableEq, Repr

structure Columns where
  column : RowId → Option String
  written : List Written

def Columns.empty : Columns := ⟨fun _ => none, []⟩

/-- A store writes or erases a row; or somebody who has the database and not
the key puts something else there. -/
inductive Action where
  | save (row : RowId) (detail : String) (iv : Bytes)
  | erase (row : RowId)
  | overwrite (row : RowId) (content : Option String)
  deriving DecidableEq, Repr

section

variable (c : Cipher)

def step (s : Columns) : Action → Option Columns
  | .save row detail iv =>
    if iv.length = ivBytes then
      some ⟨Function.update s.column row (some (encrypt c iv detail row.2)), s.written ++ [⟨iv, row.2, detail⟩]⟩
    else none
  | .erase row => some { s with column := Function.update s.column row none }
  | .overwrite row content => some { s with column := Function.update s.column row content }

def read (s : Columns) (row : RowId) : Option (Except String String) :=
  (s.column row).map (fun envelope => decrypt c envelope row.2)

/-- The envelope carries a tag that the platform takes for its own initial
vector and ciphertext in this context, where nobody has encrypted them. -/
def Forged (written : List Written) (context envelope : String) : Prop :=
  ∃ p, parts envelope.toList = some p ∧
    c.accepts (decode p.iv) (utf8 context) (decode p.tag) (decode p.ciphertext) = true ∧
    ∀ v ∈ written, ¬ (v.iv = decode p.iv ∧ v.context = context ∧
      sealed c v.iv v.detail = decode p.ciphertext)

end

/-- The same columns, had they been kept in the clear and nobody else written. -/
def clearStep (p : RowId → Option String) : Action → RowId → Option String
  | .save row detail _ => Function.update p row (some detail)
  | .erase row => Function.update p row none
  | .overwrite _ _ => p

def inTheClear (as : List Action) : RowId → Option String := as.foldl clearStep (fun _ => none)

section

variable {c : Cipher} {s s' : Columns} {row : RowId} {a : Action}

theorem iv_ne_nil {iv : Bytes} (h : iv.length = ivBytes) : iv ≠ [] := by
  rintro rfl
  cases h

theorem step_read (hx : step c s a = some s') (ha : ∀ content, a ≠ .overwrite row content)
    {p : RowId → Option String} (h : read c s row = (p row).map Except.ok) :
    read c s' row = (clearStep p a row).map Except.ok := by
  cases a with
  | save row' detail iv =>
    simp only [step] at hx
    split at hx <;> cases hx
    rename_i hiv
    by_cases hrow : row = row'
    · subst hrow
      simp [read, clearStep, decrypt_encrypt (iv_ne_nil hiv)]
    · simp only [read, clearStep, Function.update_of_ne hrow] at h ⊢
      exact h
  | erase row' =>
    cases hx
    by_cases hrow : row = row'
    · subst hrow
      simp [read, clearStep]
    · simp only [read, clearStep, Function.update_of_ne hrow] at h ⊢
      exact h
  | overwrite row' content =>
    cases hx
    have hrow : row ≠ row' := by
      rintro rfl
      exact ha content rfl
    simp only [read, clearStep, Function.update_of_ne hrow] at h ⊢
    exact h

theorem detail_of_sealed {v : Written} {iv ciphertext : Bytes} (hiv : v.iv = iv)
    (hsealed : sealed c v.iv v.detail = ciphertext) :
    c.toText (xor (c.stream iv ciphertext.length) ciphertext) = v.detail := by
  rw [← hsealed, ← hiv, unsealed, c.toText_utf8]

theorem step_written (hx : step c s a = some s') :
    s'.written = s.written ∨
      ∃ row detail iv, a = .save row detail iv ∧ s'.written = s.written ++ [⟨iv, row.2, detail⟩] := by
  cases a with
  | save row detail iv =>
    simp only [step] at hx
    split at hx <;> cases hx
    exact .inr ⟨row, detail, iv, rfl, rfl⟩
  | erase row =>
    cases hx
    exact .inl rfl
  | overwrite row content =>
    cases hx
    exact .inl rfl

theorem saved_of_written {as : List Action} (hr : run (step c) .empty as = some s) :
    ∀ v ∈ s.written, ∃ row, row.2 = v.context ∧ .save row v.detail v.iv ∈ as := by
  refine run_induction (P := fun as s => ∀ v ∈ s.written,
    ∃ row, row.2 = v.context ∧ .save row v.detail v.iv ∈ as) ?_ ?_ hr
  · intro v hv
    cases hv
  · intro as s a s' _ ih hx v hv
    obtain hsame | ⟨row, detail, iv, rfl, happended⟩ := step_written hx
    · rw [hsame] at hv
      obtain ⟨row, hrow, hmem⟩ := ih v hv
      exact ⟨row, hrow, List.mem_append_left _ hmem⟩
    · rw [happended] at hv
      obtain hv | hv := List.mem_append.mp hv
      · obtain ⟨row, hrow, hmem⟩ := ih v hv
        exact ⟨row, hrow, List.mem_append_left _ hmem⟩
      · rw [List.mem_singleton.mp hv]
        exact ⟨row, rfl, List.mem_append_right _ (List.mem_singleton_self _)⟩

end

/-- An encrypted column is as good as one in the clear. In any run of saves and
erasures, with other rows overwritten at will, a row that nobody has overwritten
reads as what was last saved there, and as nothing once it is erased. -/
theorem reads_as_in_the_clear (c : Cipher) {as : List Action} {s : Columns}
    (hr : run (step c) .empty as = some s) (row : RowId)
    (hrow : ∀ content, .overwrite row content ∉ as) :
    read c s row = (inTheClear as row).map Except.ok := by
  revert hrow
  refine run_induction (P := fun as s => (∀ content, .overwrite row content ∉ as) →
    read c s row = (inTheClear as row).map Except.ok) (fun _ => rfl) ?_ hr
  intro as s a s' _ ih hx hrow
  have hbefore := ih (fun content hmem => hrow content (List.mem_append_left _ hmem))
  rw [inTheClear, List.foldl_append]
  refine step_read hx ?_ hbefore
  rintro content rfl
  exact hrow content (List.mem_append_right _ (List.mem_singleton_self _))

/-- What the platform computes with a key of thirty-two sevens and an initial
vector of zeros, for one address of one user. -/
def elmRow : String := "\x7b\"line1\":\"1 Elm Row\",\"line2\":null\x7d"

def elmRowStream : Bytes :=
  [97, 216, 164, 178, 251, 146, 11, 232, 225, 7, 143, 100, 196, 123, 75, 174, 189, 239, 169, 249, 115,
    220, 171, 91, 22, 21, 128, 200, 79, 233, 26, 102, 237, 201]

def elmRowCiphertext : Bytes :=
  [26, 250, 200, 219, 149, 247, 58, 202, 219, 37, 190, 68, 129, 23, 38, 142, 239, 128, 222, 219, 95,
    254, 199, 50, 120, 112, 178, 234, 117, 135, 111, 10, 129, 180]

def elmRowTag : Bytes :=
  [47, 244, 187, 168, 85, 231, 195, 41, 54, 22, 203, 57, 209, 124, 135, 238]

def zeroIv : Bytes := List.replicate 12 0

def elmRowCipher : Cipher where
  stream _ n := (elmRowStream ++ List.replicate n 0).take n
  length_stream _ n := by simp
  tag iv aad ciphertext :=
    if iv = zeroIv ∧ aad = utf8 "user-1" ∧ ciphertext = elmRowCiphertext then elmRowTag
    else List.replicate 16 0
  length_tag iv aad ciphertext := by
    split
    · rfl
    · rfl
  toText bytes := (bytes.toByteArray.utf8Decode?.map (fun cs => String.ofList cs.toList)).getD ""
  toText_utf8 s := by
    have hbytes : (utf8 s).toByteArray.utf8Decode? = some s.toList.toArray :=
      List.utf8Decode?_utf8Encode
    rw [hbytes, Option.map_some, Option.getD_some, List.toList_toArray, String.ofList_toList]

def movedElmRow : List Action :=
  [.save (.addresses, "user-1") elmRow zeroIv,
    .overwrite (.addresses, "user-2") (some (encrypt elmRowCipher zeroIv elmRow "user-1"))]

theorem reads_as_in_the_clear_elmRow : ∃ s, run (step elmRowCipher) .empty movedElmRow = some s ∧
    read elmRowCipher s (.addresses, "user-1") = some (.ok elmRow) := by
  have hrun : ∃ s, run (step elmRowCipher) .empty movedElmRow = some s := ⟨_, rfl⟩
  obtain ⟨s, hs⟩ := hrun
  refine ⟨s, hs, ?_⟩
  rw [reads_as_in_the_clear elmRowCipher hs (.addresses, "user-1")]
  · simp [inTheClear, movedElmRow, clearStep]
  · simp [movedElmRow]

theorem not_forged_encrypt (c : Cipher) {written : List Written} {v : Written} (hv : v ∈ written)
    (hiv : v.iv ≠ []) : ¬ Forged c written v.context (encrypt c v.iv v.detail v.context) := by
  rintro ⟨p, hp, -, hnever⟩
  rw [parts_encrypt hiv, Option.some.injEq] at hp
  subst hp
  refine hnever v hv ⟨?_, rfl, ?_⟩
  · rw [decode_encode]
  · rw [decode_encode]

/-- A value in the wrong place is not read. Whoever overwrites whatever rows with
whatever texts, moved from other rows, cut, mixed or made up: a row reads as an
error, or as a detail that was once saved in the context of this very row,
unless the tag that stands in this row is forged. -/
theorem reads_what_was_saved (c : Cipher) {as : List Action} {s : Columns}
    (hr : run (step c) .empty as = some s) (row : RowId) (detail : String)
    (hread : read c s row = some (.ok detail)) :
    (∃ row' iv, row'.2 = row.2 ∧ .save row' detail iv ∈ as) ∨
      ∃ envelope, s.column row = some envelope ∧ Forged c s.written row.2 envelope := by
  obtain ⟨envelope, hcolumn, hdecrypt⟩ := Option.map_eq_some_iff.mp hread
  obtain ⟨p, hp, haccepts, rfl⟩ := decrypt_eq_ok hdecrypt
  by_cases hknown : ∃ v ∈ s.written, v.iv = decode p.iv ∧ v.context = row.2 ∧
      sealed c v.iv v.detail = decode p.ciphertext
  · obtain ⟨v, hv, hiv, hcontext, hsealed⟩ := hknown
    obtain ⟨row', hrow', hmem⟩ := saved_of_written hr v hv
    left
    rw [detail_of_sealed hiv hsealed]
    exact ⟨row', v.iv, hrow'.trans hcontext, hmem⟩
  · right
    refine ⟨envelope, hcolumn, p, hp, haccepts, ?_⟩
    intro v hv hsame
    exact hknown ⟨v, hv, hsame⟩

theorem reads_what_was_saved_elmRow : ∃ s, run (step elmRowCipher) .empty movedElmRow = some s ∧
    ∃ row iv, row.2 = "user-1" ∧ .save row elmRow iv ∈ movedElmRow := by
  have hiv : zeroIv ≠ [] := by decide
  have hrun : ∃ s, run (step elmRowCipher) .empty movedElmRow = some s ∧
      s.written = [⟨zeroIv, "user-1", elmRow⟩] ∧
      s.column (.addresses, "user-1") = some (encrypt elmRowCipher zeroIv elmRow "user-1") :=
    ⟨_, rfl, rfl, by simp⟩
  obtain ⟨s, hs, hwritten, hcolumn⟩ := hrun
  refine ⟨s, hs, ?_⟩
  have hread : read elmRowCipher s (.addresses, "user-1") = some (.ok elmRow) := by
    rw [read, hcolumn, Option.map_some, decrypt_encrypt hiv]
  obtain hsaved | ⟨envelope, henvelope, hforged⟩ :=
    reads_what_was_saved elmRowCipher hs (.addresses, "user-1") elmRow hread
  · exact hsaved
  · rw [hcolumn, Option.some.injEq] at henvelope
    subst henvelope
    have hmem : (⟨zeroIv, "user-1", elmRow⟩ : Written) ∈ s.written := by simp [hwritten]
    exact (not_forged_encrypt elmRowCipher hmem hiv hforged).elim

end RentalMarket.Encryption
