import RentalMarket.Catalogue.ListingMedia

namespace RentalMarket.Catalogue.Media

/-- An attempt at erasing the photographs of these listings. Where its process dies,
it has asked for this many deletes. -/
structure Attempt where
  listingIds : List Id
  answer : Nat → DeleteAnswer
  diesAfter : Option Nat

namespace Storage

def attempt (s : Storage) (a : Attempt) : Storage :=
  match a.diesAfter with
  | none => s.eraseForListings a.listingIds a.answer
  | some n => s.discard ((keysOf (s.table.listForListings a.listingIds)).take n) erasedWithAccount a.answer

def asked (s : Storage) (a : Attempt) : List String :=
  let keys := keysOf (s.table.listForListings a.listingIds)
  a.diesAfter.elim keys keys.take

def attempts (s : Storage) (as : List Attempt) : Storage := as.foldl attempt s

def Logged (s : Storage) (key : String) : Prop := ∃ line ∈ s.log, line.key = key

end Storage

open Storage

/-- What asking for the deletes of these keys does. -/
structure Discards (keys : List String) (s s' : Storage) : Prop where
  table : s'.table = s.table
  objects : ∀ key ∈ s'.objects, key ∈ s.objects
  spared : ∀ key ∈ s.objects, key ∉ keys → key ∈ s'.objects
  log : ∀ line ∈ s.log, line ∈ s'.log
  answered : ∀ key ∈ keys, key ∉ s'.objects ∨ s'.Logged key

/-- What erasing leaves of the storage it began with: nothing new, and no photograph
whose row has gone is without trace. -/
structure Accounted (s s' : Storage) : Prop where
  rows : ∀ row ∈ s'.table.rows, row ∈ s.table.rows
  objects : ∀ key ∈ s'.objects, key ∈ s.objects
  log : ∀ line ∈ s.log, line ∈ s'.log
  gone : ∀ row ∈ s.table.rows, row ∉ s'.table.rows → ∀ key ∈ row.objectKeys, key ∉ s'.objects ∨ s'.Logged key

section

variable {s s' s'' : Storage} {keys : List String} {key : String} {a : Attempt} {row : ListingMediaRecord}

theorem discards_nil (s : Storage) : Discards [] s s := ⟨rfl, fun _ h => h, fun _ h _ => h, fun _ h => h, by simp⟩

theorem Discards.cons (h : Discards [key] s s') (h' : Discards keys s' s'') : Discards (key :: keys) s s'' where
  table := h'.table.trans h.table
  objects k hk := h.objects k (h'.objects k hk)
  spared k hk hnot := by
    rw [List.mem_cons, not_or] at hnot
    exact h'.spared k (h.spared k hk (by simpa using hnot.1)) hnot.2
  log line hline := h'.log line (h.log line hline)
  answered k hk := by
    obtain rfl | hk := List.mem_cons.mp hk
    · obtain hgone | ⟨line, hline, hkey⟩ := h.answered k List.mem_cons_self
      · exact .inl (fun hstored => hgone (h'.objects k hstored))
      · exact .inr ⟨line, h'.log line hline, hkey⟩
    · exact h'.answered k hk

theorem discardKey_discards (why : String) (answer : DeleteAnswer) : Discards [key] s (s.discardKey why key answer) := by
  cases answer with
  | done =>
    refine ⟨rfl, fun k hk => List.mem_of_mem_filter hk, fun k hk hne => ?_, fun _ h => h, fun k hk => .inl ?_⟩
    · exact List.mem_filter.mpr ⟨hk, by simpa using hne⟩
    · rw [List.mem_singleton.mp hk]
      simp [discardKey]
  | failed reason gone =>
    refine ⟨rfl, fun k hk => ?_, fun k hk hne => ?_, fun line h => List.mem_append_left _ h, fun k hk => .inr ?_⟩
    · cases gone
      · exact hk
      · exact List.mem_of_mem_filter hk
    · cases gone
      · exact hk
      · exact List.mem_filter.mpr ⟨hk, by simpa using hne⟩
    · exact ⟨⟨key, why, reason⟩, by simp [discardKey], (List.mem_singleton.mp hk).symm⟩

theorem foldl_discards (s : Storage) (l : List (String × Nat)) (why : String) (answer : Nat → DeleteAnswer) :
    Discards (l.map (·.1)) s (l.foldl (fun s p => s.discardKey why p.1 (answer p.2)) s) := by
  induction l generalizing s with
  | nil => exact discards_nil s
  | cons p l ih => exact (discardKey_discards why (answer p.2)).cons (ih _)

theorem discard_discards (s : Storage) (keys : List String) (why : String) (answer : Nat → DeleteAnswer) :
    Discards keys s (s.discard keys why answer) := by
  have h := foldl_discards s keys.zipIdx why answer
  rwa [List.zipIdx_map_fst] at h

theorem foldl_log (s : Storage) (l : List (String × Nat)) (why : String) (answer : Nat → DeleteAnswer) {n : Nat}
    {reason : DiscardReason} {gone : Bool} (hfailed : answer n = .failed reason gone) (hkey : (key, n) ∈ l) :
    ⟨key, why, reason⟩ ∈ (l.foldl (fun s p => s.discardKey why p.1 (answer p.2)) s).log := by
  induction l generalizing s with
  | nil => cases hkey
  | cons p l ih =>
    obtain rfl | hkey := List.mem_cons.mp hkey
    · apply (foldl_discards _ l why answer).log
      simp [discardKey, hfailed]
    · exact ih _ hkey

theorem discard_log (s : Storage) (why : String) {answer : Nat → DeleteAnswer} {n : Nat} {reason : DiscardReason}
    {gone : Bool} (hfailed : answer n = .failed reason gone) (hkey : keys[n]? = some key) :
    ⟨key, why, reason⟩ ∈ (s.discard keys why answer).log :=
  foldl_log s keys.zipIdx why answer hfailed (List.mk_mem_zipIdx_iff_getElem?.mpr hkey)

theorem foldl_done (s : Storage) {l : List (String × Nat)} {why : String} {answer : Nat → DeleteAnswer}
    (hdone : ∀ n, answer n = .done) (hkey : key ∈ l.map (·.1)) :
    key ∉ (l.foldl (fun s p => s.discardKey why p.1 (answer p.2)) s).objects := by
  induction l generalizing s with
  | nil => cases hkey
  | cons p l ih =>
    rw [List.map_cons, List.mem_cons] at hkey
    obtain rfl | hkey := hkey
    · intro hstored
      have hbefore := (foldl_discards _ l why answer).objects _ hstored
      simp [hdone, discardKey] at hbefore
    · exact ih _ hkey

theorem discard_done (s : Storage) {why : String} {answer : Nat → DeleteAnswer}
    (hdone : ∀ n, answer n = .done) (hkey : key ∈ keys) : key ∉ (s.discard keys why answer).objects := by
  apply foldl_done s hdone
  rwa [List.zipIdx_map_fst]

theorem mem_listForListings {m : MediaTable} {listingIds : List Id} :
    row ∈ m.listForListings listingIds ↔ row ∈ m.rows ∧ row.listingId ∈ listingIds := by
  unfold MediaTable.listForListings
  split
  · rename_i hnone
    simp [hnone]
  · simp

theorem mem_deleteFor {m : MediaTable} {listingIds : List Id} :
    row ∈ (m.deleteFor listingIds).rows ↔ row ∈ m.rows ∧ row.listingId ∉ listingIds := by
  unfold MediaTable.deleteFor
  split
  · rename_i hnone
    simp [hnone]
  · simp [MediaTable.keep]

theorem mem_keysOf {media : List ListingMediaRecord} : key ∈ keysOf media ↔ ∃ row ∈ media, key ∈ row.objectKeys :=
  List.mem_flatMap

theorem deleteFor_eq_self {m : MediaTable} {listingIds : List Id} (h : m.listForListings listingIds = []) :
    m.deleteFor listingIds = m := by
  unfold MediaTable.deleteFor
  split
  · rfl
  · apply MediaTable.ext
    apply List.filter_eq_self.mpr
    intro row hrow
    rw [decide_eq_true_eq]
    intro hlisting
    have hlisted := mem_listForListings.mpr ⟨hrow, hlisting⟩
    rw [h] at hlisted
    cases hlisted

theorem eraseForListings_eq (s : Storage) (listingIds : List Id) (answer : Nat → DeleteAnswer) :
    s.eraseForListings listingIds answer =
      { s.discard (keysOf (s.table.listForListings listingIds)) erasedWithAccount answer with
        table := s.table.deleteFor listingIds } := by
  simp only [eraseForListings]
  split
  · rename_i hnone
    rw [hnone, deleteFor_eq_self hnone]
    rfl
  · rw [(discard_discards s _ erasedWithAccount answer).table]

theorem attempt_rows (s : Storage) (a : Attempt) : row ∈ (s.attempt a).table.rows ↔
    row ∈ s.table.rows ∧ (a.diesAfter = none → row.listingId ∉ a.listingIds) := by
  cases h : a.diesAfter with
  | none =>
    simp only [Storage.attempt, h, eraseForListings_eq]
    simpa using mem_deleteFor
  | some n =>
    simp only [Storage.attempt, h, (discard_discards s _ erasedWithAccount a.answer).table]
    simp

/-- The keys an attempt asks for. They are its photographs', all of them if it
comes to its end. -/
theorem attempt_discards (s : Storage) (a : Attempt) : ∃ keys,
    Discards keys s { s.attempt a with table := s.table } ∧
    (∀ key ∈ keys, ∃ row ∈ s.table.rows, row.listingId ∈ a.listingIds ∧ key ∈ row.objectKeys) ∧
    (a.diesAfter = none → ∀ row ∈ s.table.rows, row.listingId ∈ a.listingIds → ∀ key ∈ row.objectKeys,
      key ∈ keys ∧ ((∀ n, a.answer n = .done) → key ∉ (s.attempt a).objects)) := by
  have hnamed : ∀ key ∈ keysOf (s.table.listForListings a.listingIds),
      ∃ row ∈ s.table.rows, row.listingId ∈ a.listingIds ∧ key ∈ row.objectKeys := by
    intro key hkey
    obtain ⟨row, hrow, hk⟩ := mem_keysOf.mp hkey
    obtain ⟨hstored, hlisting⟩ := mem_listForListings.mp hrow
    exact ⟨row, hstored, hlisting, hk⟩
  cases h : a.diesAfter with
  | none =>
    simp only [Storage.attempt, h, eraseForListings_eq]
    have hd := discard_discards s (keysOf (s.table.listForListings a.listingIds)) erasedWithAccount a.answer
    refine ⟨_, ⟨rfl, hd.objects, hd.spared, hd.log, hd.answered⟩, hnamed, fun _ row hrow hlisting key hkey => ?_⟩
    have hasked : key ∈ keysOf (s.table.listForListings a.listingIds) :=
      mem_keysOf.mpr ⟨row, mem_listForListings.mpr ⟨hrow, hlisting⟩, hkey⟩
    exact ⟨hasked, fun hdone => discard_done s hdone hasked⟩
  | some n =>
    simp only [Storage.attempt, h]
    have hd := discard_discards s ((keysOf (s.table.listForListings a.listingIds)).take n) erasedWithAccount a.answer
    refine ⟨_, ⟨rfl, hd.objects, hd.spared, hd.log, hd.answered⟩, fun key hkey => ?_, nofun⟩
    exact hnamed key (List.mem_of_mem_take hkey)

theorem attempt_log (s : Storage) {n : Nat} {reason : DiscardReason} {gone : Bool}
    (hfailed : a.answer n = .failed reason gone) (hkey : (s.asked a)[n]? = some key) :
    ⟨key, erasedWithAccount, reason⟩ ∈ (s.attempt a).log := by
  rw [Storage.asked] at hkey
  cases h : a.diesAfter with
  | none =>
    rw [h] at hkey
    simp only [Storage.attempt, h, eraseForListings_eq]
    exact discard_log s erasedWithAccount hfailed hkey
  | some k =>
    rw [h] at hkey
    simp only [Storage.attempt, h]
    exact discard_log s erasedWithAccount hfailed hkey

theorem attempt_accounted (s : Storage) (a : Attempt) : Accounted s (s.attempt a) := by
  obtain ⟨keys, hd, -, hends⟩ := attempt_discards s a
  refine ⟨fun row hrow => (attempt_rows s a |>.mp hrow).1, hd.objects, hd.log, fun row hrow hgone key hkey => ?_⟩
  have hended : a.diesAfter = none ∧ row.listingId ∈ a.listingIds := by
    rw [attempt_rows] at hgone
    simpa [hrow] using hgone
  exact hd.answered key (hends hended.1 row hrow hended.2 key hkey).1

theorem accounted_refl (s : Storage) : Accounted s s :=
  ⟨fun _ h => h, fun _ h => h, fun _ h => h, fun _ h hgone => absurd h hgone⟩

theorem Accounted.trans (h : Accounted s s') (h' : Accounted s' s'') : Accounted s s'' where
  rows row hrow := h.rows row (h'.rows row hrow)
  objects key hkey := h.objects key (h'.objects key hkey)
  log line hline := h'.log line (h.log line hline)
  gone row hrow hgone key hkey := by
    by_cases hkept : row ∈ s'.table.rows
    · exact h'.gone row hkept hgone key hkey
    · obtain hout | ⟨line, hline, hl⟩ := h.gone row hrow hkept key hkey
      · exact .inl (fun hstored => hout (h'.objects key hstored))
      · exact .inr ⟨line, h'.log line hline, hl⟩

theorem attempts_accounted (s : Storage) (as : List Attempt) : Accounted s (s.attempts as) := by
  induction as generalizing s with
  | nil => exact accounted_refl s
  | cons a as ih => exact (attempt_accounted s a).trans (ih (s.attempt a))

theorem attempts_rows (s : Storage) (as : List Attempt) : row ∈ (s.attempts as).table.rows ↔
    row ∈ s.table.rows ∧ ∀ a ∈ as, a.diesAfter = none → row.listingId ∉ a.listingIds := by
  induction as generalizing s with
  | nil => simp [attempts]
  | cons a as ih =>
    have h := ih (s.attempt a)
    rw [attempt_rows] at h
    rw [List.forall_mem_cons, ← and_assoc]
    exact h

theorem attempts_log (s : Storage) {pre post : List Attempt} {line : Undeleted}
    (hline : line ∈ ((s.attempts pre).attempt a).log) : line ∈ (s.attempts (pre ++ a :: post)).log := by
  rw [attempts, List.foldl_append, List.foldl_cons]
  exact (attempts_accounted _ post).log line hline

theorem attempts_spare (s : Storage) (as : List Attempt) (hkey : key ∈ s.objects)
    (hother : ∀ a ∈ as, ∀ row ∈ s.table.rows, row.listingId ∈ a.listingIds → key ∉ row.objectKeys) :
    key ∈ (s.attempts as).objects := by
  induction as generalizing s with
  | nil => exact hkey
  | cons a as ih =>
    obtain ⟨keys, hd, hnamed, -⟩ := attempt_discards s a
    apply ih
    · apply hd.spared key hkey
      intro hasked
      obtain ⟨row, hrow, hlisting, hk⟩ := hnamed key hasked
      exact hother a List.mem_cons_self row hrow hlisting hk
    · intro b hb row hrow
      exact hother b (List.mem_cons_of_mem _ hb) row ((attempt_rows s a).mp hrow).1

end

/-- Erasing photographs always comes to its end and hides nothing. Whatever is
stored and however many deletes fail, an attempt that is not cut short leaves no
row of its listings, and of each of their objects nothing or a line in the log,
where each delete that failed has its own; one that is cut short leaves every row, and an attempt after it whose deletes are
all carried out leaves neither rows nor objects. -/
theorem erasure_leaves_no_trace_or_a_line (s₀ : Storage) (as : List Attempt) :
    (∀ row, row ∈ (s₀.attempts as).table.rows ↔
      row ∈ s₀.table.rows ∧ ∀ a ∈ as, a.diesAfter = none → row.listingId ∉ a.listingIds) ∧
    (∀ row ∈ s₀.table.rows, row ∉ (s₀.attempts as).table.rows → ∀ key ∈ row.objectKeys,
      key ∉ (s₀.attempts as).objects ∨ (s₀.attempts as).Logged key) ∧
    (∀ pre a post n key reason gone, as = pre ++ a :: post → ((s₀.attempts pre).asked a)[n]? = some key →
      a.answer n = .failed reason gone → ⟨key, erasedWithAccount, reason⟩ ∈ (s₀.attempts as).log) ∧
    (∀ key ∈ s₀.objects, (∀ a ∈ as, ∀ row ∈ s₀.table.rows, row.listingId ∈ a.listingIds → key ∉ row.objectKeys) →
      key ∈ (s₀.attempts as).objects) ∧
    ∀ a, a.diesAfter = none → (∀ n, a.answer n = .done) →
      ∀ row ∈ (s₀.attempts as).table.rows, row.listingId ∈ a.listingIds →
        row ∉ ((s₀.attempts as).attempt a).table.rows ∧
        ∀ key ∈ row.objectKeys, key ∉ ((s₀.attempts as).attempt a).objects := by
  refine ⟨fun row => attempts_rows s₀ as, (attempts_accounted s₀ as).gone, ?_, ?_, ?_⟩
  · rintro pre a post n key reason gone rfl hkey hfailed
    exact attempts_log s₀ (attempt_log _ hfailed hkey)
  · intro key hkey hother
    exact attempts_spare s₀ as hkey hother
  · intro a hends hdone row hrow hlisting
    constructor
    · intro hstill
      exact ((attempt_rows _ a).mp hstill).2 hends hlisting
    · intro key hkey
      obtain ⟨keys, -, -, hall⟩ := attempt_discards (s₀.attempts as) a
      exact (hall hends row hrow hlisting key hkey).2 hdone

def drillPhotograph : ListingMediaRecord where
  listingId := "drill"
  displayKey := "listings/drill/1/display.webp"
  thumbnailKey := "listings/drill/1/thumbnail.webp"
  contentType := "image/webp"
  byteSize := 250000
  width := 1600
  height := 1200
  thumbnailWidth := 400
  thumbnailHeight := 300
  sha256 := "e3b0c442"
  id := "6f1c0f52-8a0e-4c11-9d2f-0c5a7e1b2d3c"
  position := 0
  createdAt := 0

def storedDrill : Storage :=
  ⟨⟨[drillPhotograph], by decide, by decide +kernel⟩, drillPhotograph.objectKeys, []⟩

def outage : Attempt :=
  ⟨["drill"], fun n => if n = 0 then .failed .objectStoreUnavailable false else .done, none⟩

def allCarriedOut : Attempt := ⟨["drill"], fun _ => .done, none⟩

/-- The object that would not go is named by no row any more, and the next attempt
does not find it. -/
theorem a_failed_delete_is_not_retried :
    drillPhotograph.displayKey ∈ (storedDrill.attempt outage).objects ∧
    (∀ row ∈ (storedDrill.attempt outage).table.rows, drillPhotograph.displayKey ∉ row.objectKeys) ∧
    drillPhotograph.displayKey ∈ ((storedDrill.attempt outage).attempt allCarriedOut).objects := by
  decide +kernel

end RentalMarket.Catalogue.Media
