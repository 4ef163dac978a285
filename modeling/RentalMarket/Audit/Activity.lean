import RentalMarket.Audit.Trail

namespace RentalMarket.Audit

open RentalMarket.Core

variable {t : AuditTrail} {userId : Id} {row row' : AuditRow} {record : ActivityRecord} {n : Nat} {limit : Option ℚ}

/-- No tie is cut: of each of the two queries, no more rows than the limit are as new
as one that belongs on the page. -/
def TiesFit (t : AuditTrail) (userId : Id) (n : Nat) : Prop :=
  (∀ row ∈ t.own userId, asOwnAction row.toRecorded ∈ (t.activity userId).take n →
    (t.own userId).countP (fun other => row.createdAt ≤ other.createdAt) ≤ n) ∧
  ∀ row ∈ t.disclosed userId, asDisclosure row.toDisclosed ∈ (t.activity userId).take n →
    (t.disclosed userId).countP (fun other => row.createdAt ≤ other.createdAt) ≤ n

instance (t : AuditTrail) (userId : Id) (n : Nat) : Decidable (TiesFit t userId n) :=
  inferInstanceAs (Decidable (_ ∧ _))

/-- The page is the newest part of the trail, and so is the export. -/
structure IsNewest (db : Database t) (userId : Id) (limit : Option ℚ) : Prop where
  page : listActivityFor db userId limit = (t.activity userId).take (bound limit)
  once : ((listActivityFor db userId limit).map (·.id)).Nodup
  isPrefix : listActivityFor db userId limit <+: (exportActivityFor db userId).items
  truncated : (exportActivityFor db userId).truncated = true ↔ exportedActivityLimit < (t.activity userId).length

def recordsOf (own disclosed : List AuditRow) : List ActivityRecord :=
  own.map (fun row => asOwnAction row.toRecorded) ++ disclosed.map (fun row => asDisclosure row.toDisclosed)

theorem activityFor_eq (db : Database t) (userId : Id) (limit : Nat) : activityFor db userId limit =
    sortedBy ActivityRecord.newestFirst
      (recordsOf (db.findMany (madeBy userId) limit) (db.findMany (madeAbout userId) limit)) := by
  simp only [activityFor, listForActor, listForSubject, List.map_map, recordsOf]
  rfl

theorem activity_eq (t : AuditTrail) (userId : Id) : t.activity userId =
    sortedBy ActivityRecord.newestFirst (recordsOf (t.own userId) (t.disclosed userId)) := rfl

theorem mem_recordsOf {own disclosed : List AuditRow} : record ∈ recordsOf own disclosed ↔
    (∃ row ∈ own, asOwnAction row.toRecorded = record) ∨ ∃ row ∈ disclosed, asDisclosure row.toDisclosed = record := by
  rw [recordsOf, List.mem_append, List.mem_map, List.mem_map]

theorem eq_of_id (hrow : row ∈ t.rows) (hrow' : row' ∈ t.rows) (h : row.id = row'.id) : row = row' :=
  List.inj_on_of_nodup_map t.ids hrow hrow' h

theorem own_ne_disclosed (hrow : row ∈ t.own userId) (hrow' : row' ∈ t.disclosed userId) : row.id ≠ row'.id := by
  obtain ⟨hstored, hown⟩ := List.mem_filter.mp hrow
  obtain ⟨hstored', habout⟩ := List.mem_filter.mp hrow'
  intro hid
  obtain rfl := eq_of_id hstored hstored' hid
  have hown := of_decide_eq_true hown
  simp [madeAbout, hown] at habout

theorem recordsOf_ids {own disclosed : List AuditRow} (hown : ∀ row ∈ own, row ∈ t.own userId)
    (hdisclosed : ∀ row ∈ disclosed, row ∈ t.disclosed userId) (hn : own.Nodup) (hn' : disclosed.Nodup) :
    ((recordsOf own disclosed).map (·.id)).Nodup := by
  have hids : (recordsOf own disclosed).map (·.id) = own.map (·.id) ++ disclosed.map (·.id) := by
    rw [recordsOf, List.map_append, List.map_map, List.map_map]
    rfl
  rw [hids]
  refine List.Nodup.append ?_ ?_ ?_
  · apply hn.map_on
    intro row hrow row' hrow' hid
    exact eq_of_id (List.mem_of_mem_filter (hown row hrow)) (List.mem_of_mem_filter (hown row' hrow')) hid
  · apply hn'.map_on
    intro row hrow row' hrow' hid
    exact eq_of_id (List.mem_of_mem_filter (hdisclosed row hrow)) (List.mem_of_mem_filter (hdisclosed row' hrow')) hid
  · intro id hid hid'
    obtain ⟨row, hrow, rfl⟩ := List.mem_map.mp hid
    obtain ⟨row', hrow', hsame⟩ := List.mem_map.mp hid'
    exact own_ne_disclosed (hown row hrow) (hdisclosed row' hrow') hsame.symm

theorem rows_nodup (t : AuditTrail) (p : AuditRow → Bool) : (t.rows.filter p).Nodup :=
  (List.Nodup.of_map _ t.ids).filter p

theorem eq_of_newestFirst {l : List ActivityRecord} (hn : (l.map (·.id)).Nodup) {a b : ActivityRecord} (ha : a ∈ l)
    (hb : b ∈ l) (h : a.newestFirst = b.newestFirst) : a = b := by
  apply List.inj_on_of_nodup_map hn ha hb
  exact congrArg (fun key => OrderDual.ofDual (ofLex key).2) h

theorem activityFor_eq_filter (db : Database t) (userId : Id) (limit : Nat) : activityFor db userId limit =
    (t.activity userId).filter (fun record => record ∈
      recordsOf (db.findMany (madeBy userId) limit) (db.findMany (madeAbout userId) limit)) := by
  have hown := db.reads (madeBy userId) limit
  have habout := db.reads (madeAbout userId) limit
  have hall : ((recordsOf (t.own userId) (t.disclosed userId)).map (·.id)).Nodup :=
    recordsOf_ids (fun _ h => h) (fun _ h => h) (rows_nodup t _) (rows_nodup t _)
  have hread : ((recordsOf (db.findMany (madeBy userId) limit) (db.findMany (madeAbout userId) limit)).map
      (·.id)).Nodup :=
    recordsOf_ids (t := t) (fun _ h => hown.subset h) (fun _ h => habout.subset h) (hown.nodup (rows_nodup t _))
      (habout.nodup (rows_nodup t _))
  rw [activityFor_eq, activity_eq]
  apply sortedBy_eq_filter hall.of_map hread.of_map
  · intro record hrecord
    obtain ⟨row, hrow, rfl⟩ | ⟨row, hrow, rfl⟩ := mem_recordsOf.mp hrecord
    · exact mem_recordsOf.mpr (.inl ⟨row, hown.subset hrow, rfl⟩)
    · exact mem_recordsOf.mpr (.inr ⟨row, habout.subset hrow, rfl⟩)
  · intro a ha b hb hkey
    exact eq_of_newestFirst hall ha hb hkey

theorem activityFor_length (db : Database t) (userId : Id) (limit : Nat) : (activityFor db userId limit).length =
    min limit (t.own userId).length + min limit (t.disclosed userId).length := by
  rw [activityFor_eq, length_sortedBy, recordsOf, List.length_append, List.length_map, List.length_map,
    (db.reads _ limit).length, (db.reads _ limit).length]
  rfl

theorem activity_length (t : AuditTrail) (userId : Id) :
    (t.activity userId).length = (t.own userId).length + (t.disclosed userId).length := by
  rw [activity_eq, length_sortedBy, recordsOf, List.length_append, List.length_map, List.length_map]

theorem TiesFit.take_activityFor (h : TiesFit t userId n) (db : Database t) {limit : Nat} (hlimit : n ≤ limit) :
    (activityFor db userId limit).take n = (t.activity userId).take n := by
  rw [activityFor_eq_filter]
  apply take_filter_eq
  intro record hrecord
  rw [decide_eq_true_eq, mem_recordsOf]
  have hmem := List.mem_of_mem_take hrecord
  rw [activity_eq, mem_sortedBy, mem_recordsOf] at hmem
  obtain ⟨row, hrow, rfl⟩ | ⟨row, hrow, rfl⟩ := hmem
  · refine .inl ⟨row, (db.reads _ limit).mem hrow ?_, rfl⟩
    exact (h.1 row hrow hrecord).trans hlimit
  · refine .inr ⟨row, (db.reads _ limit).mem hrow ?_, rfl⟩
    exact (h.2 row hrow hrecord).trans hlimit

/-- The database that puts this row behind all others of its instant. -/
def tieLast (t : AuditTrail) (last : AuditRow) : Database t :=
  ⟨fun p limit => readLast AuditRow.createdAtDesc last (t.rows.filter p) limit, fun _ _ => readLast_reads⟩

theorem bound_le (limit : Option ℚ) : bound limit ≤ maxActivityLimit :=
  Paging.boundedLimit_le limit (by decide)

theorem mem_page (h : ∀ db : Database t, listActivityFor db userId limit = (t.activity userId).take (bound limit))
    (hrecord : record ∈ (t.activity userId).take (bound limit)) (db : Database t) :
    record ∈ recordsOf (db.findMany (madeBy userId) (bound limit)) (db.findMany (madeAbout userId) (bound limit)) := by
  rw [← h db] at hrecord
  have hmem := List.mem_of_mem_take hrecord
  rwa [activityFor_eq, mem_sortedBy] at hmem

theorem countP_le_of_read {p : AuditRow → Bool} {limit : ℕ} (hrow : row ∈ t.rows.filter p)
    (hread : row' ∈ (tieLast t row).findMany p limit) (hid : row'.id = row.id) :
    (t.rows.filter p).countP (fun other => row.createdAt ≤ other.createdAt) ≤ limit := by
  by_contra hmany
  have hmem := ((tieLast t row).reads _ _).subset hread
  have heq := eq_of_id (List.mem_of_mem_filter hmem) (List.mem_of_mem_filter hrow) hid
  rw [heq] at hread
  exact not_mem_readLast (rows_nodup t p) (not_le.mp hmany) hread

theorem tiesFit_of_page
    (h : ∀ db : Database t, listActivityFor db userId limit = (t.activity userId).take (bound limit)) :
    TiesFit t userId (bound limit) := by
  constructor
  · intro row hrow hrecord
    obtain ⟨row', hrow', hsame⟩ | ⟨row', -, hsame⟩ := mem_recordsOf.mp (mem_page h hrecord (tieLast t row))
    · exact countP_le_of_read hrow hrow' (congrArg ActivityRecord.id hsame)
    · have hactor := congrArg ActivityRecord.actor hsame
      simp only [asDisclosure, asOwnAction] at hactor
      split at hactor <;> cases hactor
  · intro row hrow hrecord
    obtain ⟨row', -, hsame⟩ | ⟨row', hrow', hsame⟩ := mem_recordsOf.mp (mem_page h hrecord (tieLast t row))
    · have hactor := congrArg ActivityRecord.actor hsame
      simp only [asDisclosure, asOwnAction] at hactor
      split at hactor <;> cases hactor
    · exact countP_le_of_read hrow hrow' (congrArg ActivityRecord.id hsame)

theorem activity_ids (t : AuditTrail) (userId : Id) : ((t.activity userId).map (·.id)).Nodup := by
  apply (sortedBy_perm.map _).nodup_iff.mpr
  exact recordsOf_ids (fun _ h => h) (fun _ h => h) (rows_nodup t _) (rows_nodup t _)

/-- The activity page is the newest part of the trail, whatever the database makes of
ties, if and only if no tie is cut. The export says rightly in any case whether it was
truncated. -/
theorem activity_isNewest_iff (t : AuditTrail) (userId : Id) (limit : Option ℚ) :
    (∀ db : Database t, IsNewest db userId limit) ↔ TiesFit t userId (bound limit) := by
  constructor
  · intro h
    exact tiesFit_of_page (fun db => (h db).page)
  · intro h db
    have hpage : listActivityFor db userId limit = (t.activity userId).take (bound limit) :=
      h.take_activityFor db (Nat.le_refl _)
    have hserved : bound limit ≤ exportedActivityLimit := (bound_le limit).trans (by decide)
    have hread : bound limit ≤ Paging.probe exportedActivityLimit := hserved.trans (Nat.le_succ _)
    refine ⟨hpage, ?_, ?_, ?_⟩
    · rw [hpage]
      exact (activity_ids t userId).sublist ((List.take_sublist _ _).map _)
    · rw [hpage, ← h.take_activityFor db hread]
      exact List.take_prefix_take_left hserved
    · rw [exportActivityFor, Paging.fitTo, decide_eq_true_eq, activityFor_length, activity_length, Paging.probe]
      omega

def entry (id : Id) (createdAt : Int) : AuditRow :=
  ⟨id, some "u1", "profile.updated", "user", "u1", none, none, none, createdAt⟩

def threeEntries : AuditTrail := ⟨[entry "a" 1, entry "b" 2, entry "c" 2], by decide⟩

theorem two_of_three : IsNewest (tieLast threeEntries (entry "c" 2)) "u1" (some 2) :=
  (activity_isNewest_iff threeEntries "u1" (some 2)).mpr (by decide +kernel) (tieLast threeEntries (entry "c" 2))

def tiedEntries : AuditTrail := ⟨[entry "a" 1, entry "b" 1, entry "c" 1], by decide⟩

/-- Three entries of one millisecond and a page of two: the newest is the one left
out. -/
theorem a_cut_tie_loses_the_newest : ∃ db : Database tiedEntries,
    (listActivityFor db "u1" (some 2)).map (·.id) = ["b", "a"] ∧
    (tiedEntries.activity "u1").map (·.id) = ["c", "b", "a"] ∧ ¬IsNewest db "u1" (some 2) := by
  have hpage : (listActivityFor (tieLast tiedEntries (entry "c" 1)) "u1" (some 2)).map (·.id) = ["b", "a"] := by
    decide +kernel
  have hactivity : (tiedEntries.activity "u1").map (·.id) = ["c", "b", "a"] := by decide +kernel
  refine ⟨tieLast tiedEntries (entry "c" 1), hpage, hactivity, fun h => ?_⟩
  rw [h.page, List.map_take, hactivity] at hpage
  revert hpage
  decide +kernel

end RentalMarket.Audit
