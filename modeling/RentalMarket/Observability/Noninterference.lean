import RentalMarket.Observability.Redaction

namespace RentalMarket.Observability

open Traversal (Fold)

variable {toLowerCase : String → String} {m n : Nat}

theorem redact_some (h : Heap n) (v : Value n) : ∃ out, redact toLowerCase h v = some out := by
  obtain ⟨out, seen, hvisit, -⟩ := (redaction toLowerCase h).visit_some v List.nodup_nil
    (by simp : Fintype.card (Fin n) < n + 1 + ([] : List (Fin n)).length)
  refine ⟨out, ?_⟩
  rw [redact, redactFrom_eq_visit, hvisit]
  rfl

/-- Values that are the same but for which objects they refer to. -/
inductive SameValue (same : Fin m → Fin n → Prop) : Value m → Value n → Prop where
  | primitive (p : Primitive) : SameValue same (.primitive p) (.primitive p)
  | text (s : String) : SameValue same (.text s) (.text s)
  | object {r : Fin m} {r' : Fin n} (h : same r r') : SameValue same (.object r) (.object r')

/-- Objects that differ only in what is stored under sensitive keys. -/
inductive SameEntity (toLowerCase : String → String) (same : Fin m → Fin n → Prop) : Entity m → Entity n → Prop where
  | array {items : List (Value m)} {items' : List (Value n)} (h : List.Forall₂ (SameValue same) items items') :
    SameEntity toLowerCase same (.array items) (.array items')
  | plain {members : List (String × Value m)} {members' : List (String × Value n)}
    (distinct : (members.map (·.1)).Nodup) (distinct' : (members'.map (·.1)).Nodup)
    (h : List.Forall₂ (fun e e' => e.1 = e'.1 ∧ (isSensitiveKey toLowerCase e.1 ∨ SameValue same e.2 e'.2))
      members members') : SameEntity toLowerCase same (.plain members distinct) (.plain members' distinct')
  | error (name message : String) (stack : Option String) {cause : Value m} {cause' : Value n}
    (h : SameValue same cause cause') :
    SameEntity toLowerCase same (.error name message stack cause) (.error name message stack cause')

/-- Heaps whose objects, one for one, differ only in what is stored under sensitive
keys. Objects that are only found there need no counterpart. -/
structure Agree (toLowerCase : String → String) (g : Heap m) (h : Heap n) (same : Fin m → Fin n → Prop) : Prop where
  oneToOne : ∀ r s r' s', same r r' → same s s' → (r = s ↔ r' = s')
  entity : ∀ r r', same r r' → SameEntity toLowerCase same (g r) (h r')

variable {same : Fin m → Fin n → Prop} {members : List (String × Value m)} {members' : List (String × Value n)}

theorem parts_alike (h : List.Forall₂ (fun e e' => e.1 = e'.1 ∧
    (isSensitiveKey toLowerCase e.1 ∨ SameValue same e.2 e'.2)) members members') :
    List.Forall₂ (SameValue same) ((members.filter (fun e => !isSensitiveKey toLowerCase e.1)).map (·.2))
      ((members'.filter (fun e => !isSensitiveKey toLowerCase e.1)).map (·.2)) := by
  induction h with
  | nil => exact .nil
  | @cons e e' _ _ he _ ih =>
    obtain ⟨hkey, hvalue⟩ := he
    by_cases hsensitive : isSensitiveKey toLowerCase e.1
    · rw [List.filter_cons_of_neg (by simpa using hsensitive),
        List.filter_cons_of_neg (by simpa [← hkey] using hsensitive)]
      exact ih
    · rw [List.filter_cons_of_pos (by simpa using hsensitive),
        List.filter_cons_of_pos (by simpa [← hkey] using hsensitive)]
      exact .cons (hvalue.resolve_left hsensitive) ih

theorem fill_alike (h : List.Forall₂ (fun e e' => e.1 = e'.1 ∧
    (isSensitiveKey toLowerCase e.1 ∨ SameValue same e.2 e'.2)) members members') (output : Out) (outs : List Out) :
    fill toLowerCase output members outs = fill toLowerCase output members' outs := by
  induction h generalizing output outs with
  | nil => rfl
  | @cons e e' _ _ he _ ih =>
    obtain ⟨key, entry⟩ := e
    obtain ⟨key', entry'⟩ := e'
    obtain rfl : key = key' := he.1
    by_cases hsensitive : isSensitiveKey toLowerCase key
    · rw [fill_sensitive hsensitive, fill_sensitive hsensitive, ih]
    · cases outs with
      | nil => simp only [fill, hsensitive, Bool.false_eq_true, if_false]
      | cons out outs => rw [fill_open hsensitive, fill_open hsensitive, ih]

theorem given_alike {cause : Value m} {cause' : Value n} (h : SameValue same cause cause') :
    List.Forall₂ (SameValue same) (given cause) (given cause') := by
  cases h with
  | primitive p => cases p with
    | undefined => exact .nil
    | null | boolean _ | number _ => exact .cons (.primitive _) .nil
  | text s => exact .cons (.text s) .nil
  | object h => exact .cons (.object h) .nil

theorem redaction_alike {g : Heap m} {h : Heap n} (agree : Agree toLowerCase g h same) :
    Fold.Alike (redaction toLowerCase g) (redaction toLowerCase h) same (SameValue same) where
  injective := agree.oneToOne
  look v v' hv := by
    cases hv with
    | primitive p => exact .inl ⟨.primitive p, rfl, rfl⟩
    | text s => exact .inl ⟨.text (redactString s), rfl, rfl⟩
    | object hr => exact .inr ⟨_, _, rfl, rfl, hr⟩
  parts r r' hr := by
    have hentity := agree.entity r r' hr
    dsimp only [redaction]
    generalize g r = entity at hentity
    generalize h r' = entity' at hentity
    cases hentity with
    | array hitems => exact hitems
    | plain _ _ hmembers => exact parts_alike hmembers
    | error _ _ _ hcause => exact given_alike hcause
  build r r' hr := by
    have hentity := agree.entity r r' hr
    funext outs
    dsimp only [redaction]
    generalize g r = entity at hentity
    generalize h r' = entity' at hentity
    cases hentity with
    | array _ => rfl
    | plain _ _ hmembers => exact fill_alike hmembers _ outs
    | error _ _ _ _ => rfl
  again := rfl

/-- Every value is redacted, cyclic or not, and what comes out does not depend on what
is stored under sensitive keys. -/
theorem redact_reveals_nothing (toLowerCase : String → String) :
    (∀ (n : Nat) (h : Heap n) (v : Value n), ∃ out, redact toLowerCase h v = some out) ∧
    ∀ (m n : Nat) (g : Heap m) (h : Heap n) (same : Fin m → Fin n → Prop) (v : Value m) (w : Value n),
      Agree toLowerCase g h same → SameValue same v w → redact toLowerCase g v = redact toLowerCase h w := by
  refine ⟨fun n h v => redact_some h v, ?_⟩
  intro m n g h same v w agree hvalue
  obtain ⟨out, hout⟩ : ∃ out, redact toLowerCase g v = some out := redact_some g v
  obtain ⟨out', hout'⟩ : ∃ out, redact toLowerCase h w = some out := redact_some h w
  rw [hout, hout']
  rw [redact, redactFrom_eq_visit] at hout hout'
  obtain ⟨⟨_, seen⟩, hvisit, rfl⟩ := Option.map_eq_some_iff.mp hout
  obtain ⟨p, hvisit', rfl⟩ := Option.map_eq_some_iff.mp hout'
  have hnone : Fold.Seen same [] [] := fun _ _ _ => iff_of_false List.not_mem_nil List.not_mem_nil
  obtain ⟨seen'', halike, -⟩ := (redaction_alike agree).visit hnone hvalue hvisit
  rw [← Fold.visit_unique halike hvisit']

def signIn (password : Value 2) : Heap 2 :=
  ![.plain [("user", .text "alice"), ("password", password), ("self", .object 0), ("failure", .object 1)] (by simp),
    .error "Error" "refused" none (.object 0)]

theorem signIn_reveals_no_password : redact String.toLower (signIn (.text "hunter2")) (.object 0) =
    redact String.toLower (signIn (.object 1)) (.object 0) := by
  have hsensitive : isSensitiveKey String.toLower "password" := by decide +kernel
  apply (redact_reveals_nothing String.toLower).2 2 2 _ _ Eq _ _ _ (.object rfl)
  constructor
  · rintro r s _ _ rfl rfl
    exact Iff.rfl
  · rintro r _ rfl
    match r with
    | 0 =>
      refine .plain _ _ (.cons ⟨rfl, .inr (.text "alice")⟩ (.cons ⟨rfl, .inl hsensitive⟩ ?_))
      exact .cons ⟨rfl, .inr (.object rfl)⟩ (.cons ⟨rfl, .inr (.object rfl)⟩ .nil)
    | 1 => exact .error "Error" "refused" none (.object rfl)

end RentalMarket.Observability
