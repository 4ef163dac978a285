import RentalMarket.Observability.Redaction

namespace RentalMarket.Observability

open Traversal (Fold Telling)

/-- The redaction of the tree that a value unfolds to: nothing is remembered. -/
def redactTree (toLowerCase : String → String) {n : Nat} (h : Heap n) : Nat → Value n → Option Out
  | 0, _ => none
  | _ + 1, .text s => some (.text (redactString s))
  | _ + 1, .primitive p => some (.primitive p)
  | fuel + 1, .object r =>
    match h r with
    | .error name message stack (.primitive .undefined) => some (.object none (errorFields name message stack))
    | .error name message stack cause => (redactTree toLowerCase h fuel cause).map (fun out =>
        .object none (errorFields name message stack ++ [("cause", out)]))
    | .array items => (items.mapM (redactTree toLowerCase h fuel)).map .array
    | .plain members _ => members.foldlM (fun output e =>
        if isSensitiveKey toLowerCase e.1 then some (output.assign e.1 (.text redacted))
        else (redactTree toLowerCase h fuel e.2).map (fun out => output.assign e.1 out)) (.object none [])

variable {toLowerCase : String → String} {n : Nat} {h : Heap n} {fuel : Nat}

theorem foldlM_eq_mapM (f : Value n → Option Out) (output : Out) (members : List (String × Value n)) :
    members.foldlM (fun output e =>
      if isSensitiveKey toLowerCase e.1 then some (output.assign e.1 (.text redacted))
      else (f e.2).map (fun out => output.assign e.1 out)) output =
    (((members.filter (fun e => !isSensitiveKey toLowerCase e.1)).map (·.2)).mapM f).map
      (fill toLowerCase output members) := by
  induction members generalizing output with
  | nil => rfl
  | cons e members ih =>
    obtain ⟨key, entry⟩ := e
    rw [List.foldlM_cons]
    by_cases hkey : isSensitiveKey toLowerCase key
    · rw [if_pos hkey, List.filter_cons_of_neg (by simpa using hkey)]
      refine (ih _).trans ?_
      congr 1
      funext outs
      exact (fill_sensitive hkey).symm
    · rw [if_neg hkey, List.filter_cons_of_pos (by simpa using hkey), List.map_cons, List.mapM_cons]
      cases f entry with
      | none => rfl
      | some out =>
        refine (ih _).trans ?_
        cases ((members.filter (fun e => !isSensitiveKey toLowerCase e.1)).map (·.2)).mapM f with
        | none => rfl
        | some outs => exact congrArg some (fill_open hkey).symm

theorem redactTree_eq_plain (v : Value n) :
    redactTree toLowerCase h fuel v = (redaction toLowerCase h).plain fuel v := by
  induction fuel generalizing v with
  | zero => rfl
  | succ fuel ih =>
    have hfun : redactTree toLowerCase h fuel = (redaction toLowerCase h).plain fuel := funext ih
    cases v with
    | primitive p => rfl
    | text s => rfl
    | object r =>
      rw [redactTree, hfun, Fold.plain_node rfl]
      cases hentity : h r with
      | array items => simp only [redaction, hentity]
      | plain members distinct =>
        simp only [redaction, hentity]
        exact foldlM_eq_mapM _ _ members
      | error name message stack cause =>
        have hgiven : given cause = [cause] → ((redaction toLowerCase h).plain fuel cause).map (fun out =>
            Out.object none (errorFields name message stack ++ [("cause", out)])) =
            ((given cause).mapM ((redaction toLowerCase h).plain fuel)).map (fun outs =>
              .object none (errorFields name message stack ++ outs.map (("cause", ·)))) := by
          intro hcause
          rw [hcause, List.mapM_cons, List.mapM_nil]
          cases (redaction toLowerCase h).plain fuel cause <;> rfl
        simp only [redaction, hentity]
        cases cause with
        | primitive p => cases p with
          | undefined =>
            simp only [given, List.mapM_nil, Option.pure_def, Option.map_some, List.map_nil, List.append_nil]
          | null | boolean _ | number _ => exact hgiven rfl
        | text _ | object _ => exact hgiven rfl

namespace Out

def IsNode : Out → Prop
  | array _ => True
  | object _ _ => True
  | _ => False

/-- Nothing was assigned to the key yet. -/
def Untouched (key : String) : Out → Prop
  | object prototype members => (key = "__proto__" → prototype = none) ∧ key ∉ members.map (·.1)
  | _ => False

variable {key key' : String} {a b output output' : Out}

theorem IsNode.isPrototype (h : a.IsNode) : a.isPrototype = true := by
  cases a with
  | array _ | object _ _ => rfl
  | primitive _ | text _ => exact h.elim

theorem IsNode.assign (h : output.IsNode) : (output.assign key a).IsNode := by
  cases output with
  | primitive _ | text _ => exact h.elim
  | array _ => exact h
  | object _ _ =>
    rw [Out.assign]
    split
    · exact trivial
    · exact trivial

theorem Untouched.assign (h : output.Untouched key) (h' : output.Untouched key') (hne : key ≠ key') :
    (output.assign key' a).Untouched key := by
  cases output with
  | primitive _ | text _ | array _ => exact h.elim
  | object prototype members =>
    obtain ⟨hprototype, hkey⟩ := h
    rw [Out.assign]
    by_cases hproto : key' = "__proto__"
    · rw [if_pos hproto]
      exact ⟨fun hkey => absurd (hkey.trans hproto.symm) hne, hkey⟩
    · rw [if_neg hproto, Script.Record.put_of_not_mem h'.2]
      refine ⟨hprototype, ?_⟩
      simpa [hne] using hkey

theorem assign_injective (hu : output.Untouched key) (hu' : output'.Untouched key) (hab : a = b ∨ b.IsNode)
    (heq : output.assign key a = output'.assign key b) : output = output' ∧ a = b := by
  cases output with
  | primitive _ | text _ | array _ => exact hu.elim
  | object prototype members => cases output' with
    | primitive _ | text _ | array _ => exact hu'.elim
    | object prototype' members' =>
      rw [assign, assign] at heq
      by_cases hproto : key = "__proto__"
      · rw [if_pos hproto, if_pos hproto, hu.1 hproto, hu'.1 hproto] at heq
        obtain ⟨hprototype, rfl⟩ := Out.object.inj heq
        refine ⟨by rw [hu.1 hproto, hu'.1 hproto], ?_⟩
        rcases hab with rfl | hb
        · rfl
        · rw [hb.isPrototype] at hprototype
          split at hprototype
          · exact Option.some.inj hprototype
          · cases hprototype
      · rw [if_neg hproto, if_neg hproto, Script.Record.put_of_not_mem hu.2, Script.Record.put_of_not_mem hu'.2] at heq
        obtain ⟨rfl, hmembers⟩ := Out.object.inj heq
        obtain ⟨rfl, hlast⟩ := List.append_inj' hmembers rfl
        exact ⟨rfl, (Prod.mk.inj (List.cons.inj hlast).1).2⟩

end Out

theorem fill_isNode {output : Out} (members : List (String × Value n)) (outs : List Out) (h : output.IsNode) :
    (fill toLowerCase output members outs).IsNode := by
  induction members generalizing output outs with
  | nil => exact h
  | cons e members ih =>
    obtain ⟨key, entry⟩ := e
    by_cases hkey : isSensitiveKey toLowerCase key
    · rw [fill_sensitive hkey]
      exact ih outs h.assign
    · cases outs with
      | nil => simpa only [fill, hkey, Bool.false_eq_true, if_false] using h
      | cons out outs =>
        rw [fill_open hkey]
        exact ih outs h.assign

theorem fill_injective {members : List (String × Value n)} {output output' : Out} {outs outs' : List Out}
    (distinct : (members.map (·.1)).Nodup)
    (huntouched : ∀ key ∈ members.map (·.1), output.Untouched key ∧ output'.Untouched key)
    (hlength : outs'.length = (members.filter (fun e => !isSensitiveKey toLowerCase e.1)).length)
    (houts : List.Forall₂ (fun a b => a = b ∨ b.IsNode) outs outs')
    (heq : fill toLowerCase output members outs = fill toLowerCase output' members outs') :
    output = output' ∧ outs = outs' := by
  induction members generalizing output output' outs outs' with
  | nil =>
    obtain rfl := List.eq_nil_of_length_eq_zero hlength
    cases houts
    exact ⟨heq, rfl⟩
  | cons e members ih =>
    obtain ⟨key, entry⟩ := e
    rw [List.map_cons, List.nodup_cons] at distinct
    obtain ⟨hu, hu'⟩ := huntouched key List.mem_cons_self
    have hothers : ∀ a b, ∀ key' ∈ members.map (·.1),
        (output.assign key a).Untouched key' ∧ (output'.assign key b).Untouched key' := by
      intro a b key' hkey'
      have hne : key' ≠ key := fun heq => distinct.1 (heq ▸ hkey')
      obtain ⟨ho, ho'⟩ := huntouched key' (List.mem_cons_of_mem _ hkey')
      exact ⟨ho.assign hu hne, ho'.assign hu' hne⟩
    by_cases hkey : isSensitiveKey toLowerCase key
    · rw [List.filter_cons_of_neg (by simpa using hkey)] at hlength
      rw [fill_sensitive hkey, fill_sensitive hkey] at heq
      obtain ⟨hassign, rfl⟩ := ih distinct.2 (hothers _ _) hlength houts heq
      exact ⟨(Out.assign_injective hu hu' (.inl rfl) hassign).1, rfl⟩
    · rw [List.filter_cons_of_pos (by simpa using hkey)] at hlength
      cases houts with
      | nil => cases hlength
      | cons hout houts =>
        rw [fill_open hkey, fill_open hkey] at heq
        obtain ⟨hassign, rfl⟩ := ih distinct.2 (hothers _ _) (Nat.succ.inj hlength) houts heq
        obtain ⟨rfl, rfl⟩ := Out.assign_injective hu hu' hout hassign
        exact ⟨rfl, rfl⟩

theorem redaction_telling (toLowerCase : String → String) (h : Heap n) :
    Telling (redaction toLowerCase h) Out.IsNode where
  again := id
  built r outs := by
    dsimp only [redaction]
    cases h r with
    | array items => exact trivial
    | plain members distinct => exact fill_isNode members outs trivial
    | error name message stack cause => exact trivial
  parts r outs outs' hlength houts heq := by
    dsimp only [redaction] at hlength heq
    cases hentity : h r with
    | array items =>
      rw [hentity] at heq
      exact Out.array.inj heq
    | plain members distinct =>
      rw [hentity] at hlength heq
      have hempty : ∀ key ∈ members.map (·.1), (Out.object none []).Untouched key :=
        fun key _ => ⟨fun _ => rfl, List.not_mem_nil⟩
      rw [List.length_map] at hlength
      exact (fill_injective distinct (fun key hkey => ⟨hempty key hkey, hempty key hkey⟩) hlength houts heq).2
    | error name message stack cause =>
      rw [hentity] at heq
      have hfields := List.append_cancel_left (Out.object.inj heq).2
      exact List.map_injective_iff.mpr (fun _ _ hab => (Prod.mk.inj hab).2) hfields

/-- Of a value without cycles the redaction is that of its tree, with nothing called
circular, exactly where no two paths lead to one object. -/
theorem redact_eq_tree_iff (toLowerCase : String → String) {n : Nat} (h : Heap n) (v : Value n)
    (hacyclic : (redaction toLowerCase h).Acyclic v) : ∃ tree, redactTree toLowerCase h (n + 1) v = some tree ∧
      (redact toLowerCase h v = some tree ↔ (redaction toLowerCase h).Unshared v) := by
  obtain ⟨out, seen, tree, hvisit, htree, hiff⟩ := Fold.visit_eq_plain_iff (redaction_telling toLowerCase h) v hacyclic
    (by simp : Fintype.card (Fin n) < n + 1)
  refine ⟨tree, (redactTree_eq_plain v).trans htree, ?_⟩
  rw [redact, redactFrom_eq_visit, hvisit, ← hiff]
  exact Option.some_inj

def booking (lender : Fin 3) : Heap 3 :=
  ![.plain [("borrower", .object 1), ("lender", .object lender)] (by simp), .plain [("id", .text "user-1")] (by simp),
    .plain [("id", .text "user-2")] (by simp)]

theorem booking_keys : isSensitiveKey String.toLower "borrower" = false ∧
    isSensitiveKey String.toLower "lender" = false ∧ isSensitiveKey String.toLower "id" = false := by decide +kernel

theorem booking_acyclic {lender : Fin 3} (hlender : 0 < lender) :
    (redaction String.toLower (booking lender)).Acyclic (.object 0) := by
  obtain ⟨hkey, hkey', hid⟩ := booking_keys
  apply Fold.acyclic_of_rank (fun r => if r = 0 then 1 else 0)
  intro r w hw s hs
  match r with
  | 0 =>
    have hparts : (redaction String.toLower (booking lender)).parts 0 = [.object 1, .object lender] := by
      simp [redaction, booking, hkey, hkey']
    rw [hparts] at hw
    have hpositive : 0 < s := by
      rcases List.mem_pair.mp hw with rfl | rfl
      · cases hs
        decide
      · cases hs
        exact hlender
    rw [if_neg hpositive.ne', if_pos rfl]
    exact Nat.one_pos
  | 1 | 2 =>
    simp only [redaction, booking] at hw
    obtain ⟨e, he, rfl⟩ := List.mem_map.mp hw
    obtain rfl := List.mem_singleton.mp (List.mem_of_mem_filter he)
    cases hs

theorem two_parties_are_told : ∃ tree, redactTree String.toLower (booking 2) 4 (.object 0) = some tree ∧
    (redact String.toLower (booking 2) (.object 0) = some tree ↔
      (redaction String.toLower (booking 2)).Unshared (.object 0)) :=
  redact_eq_tree_iff String.toLower (booking 2) (.object 0) (booking_acyclic (by decide))

/-- Who lends to himself is no circle. -/
theorem a_shared_record_is_called_circular : (redaction String.toLower (booking 1)).Acyclic (.object 0) ∧
    redact String.toLower (booking 1) (.object 0) =
      some (.object none [("borrower", .object none [("id", .text "user-1")]), ("lender", .text "[circular]")]) ∧
    redactTree String.toLower (booking 1) 4 (.object 0) =
      some (.object none [("borrower", .object none [("id", .text "user-1")]),
        ("lender", .object none [("id", .text "user-1")])]) := by
  obtain ⟨hborrower, hlender, hid⟩ := booking_keys
  have htext : redactString "user-1" = "user-1" := by decide +kernel
  refine ⟨booking_acyclic (by decide), ?_, ?_⟩
  · simp [redact, redactFrom, booking, redactMembers, hborrower, hlender, hid, htext, Out.assign, Script.Record.put]
  · simp [redactTree, booking, hborrower, hlender, hid, htext, Out.assign, Script.Record.put]

end RentalMarket.Observability
