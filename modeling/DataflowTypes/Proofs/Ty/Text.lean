import DataflowTypes.Proofs.Expr.Parser
import DataflowTypes.Proofs.Lattice.JoinLaws
import DataflowTypes.Proofs.Solver.Value
import DataflowTypes.Proofs.Ty.Derivation
import DataflowTypes.Ty.Parse

/-!
# Reading back the text of types

The derivation of the text of a type denotes the type with its components declared as
they are resolved, and a type that was read has its components declared so.  Main
statement: the text of a type is read back as a type that denotes the same, and a type
that was read comes back unchanged.
-/

namespace DataflowTypes

open Scan (isName)

/-! ## Rows -/

theorem NameSet.nodup (ls : NameSet) : ls.toList.Nodup := by
  refine ls.increasing.imp ?_
  rintro x _ below rfl
  exact String.lt_irrefl x below

theorem Row.ext_get? {α : Type} {r r' : Row α} (h : ∀ x, r.get? x = r'.get? x) : r = r' := by
  obtain ⟨ls, f⟩ := r
  obtain ⟨ls', f'⟩ := r'
  obtain rfl : ls = ls' := by
    refine NameSet.ext_mem fun x => ?_
    have same := h x
    by_cases mem : x ∈ ls <;> by_cases mem' : x ∈ ls' <;>
      simp [Row.get?, NameSet.find?, mem, mem'] at same ⊢
  have values : f = f' := by
    funext m
    simpa [Row.get?] using h m.1
  rw [values]

private theorem Row.tabulate_eq {α : Type} {ls : NameSet} (f : ls.Member → α) :
    Row.tabulate ls f = ⟨ls, f⟩ :=
  Row.ext_get? fun x => Row.get?_tabulate f x

private theorem Row.mem_of_ofDistinct {α : Type} {entries : List (String × α)} {row : Row α}
    (h : ofDistinct entries = .ok row) {x : String} {a : α} (found : row.get? x = some a) :
    (x, a) ∈ entries := by
  have general (entries : List (String × α)) (r : Row α)
      (h : entries.foldlM (fun r e =>
        if r.contains e.1 then Except.error e.1 else .ok (r.insert e.1 e.2)) r = .ok row) :
      (x, a) ∈ entries ∨ r.get? x = some a := by
    induction entries generalizing r with
    | nil =>
        obtain rfl := Except.ok.inj h
        exact .inr found
    | cons entry entries ih =>
        obtain ⟨label, b⟩ := entry
        rw [List.foldlM_cons] at h
        obtain ⟨r', step, h⟩ := bind_eq_ok_iff.1 h
        dsimp only at step
        split at step
        · cases step
        · obtain rfl := Except.ok.inj step
          rcases ih _ h with mem | found
          · exact .inl (List.mem_cons_of_mem _ mem)
          · rw [get?_insert] at found
            split at found
            case isTrue same =>
              obtain rfl := Option.some.inj found
              exact .inl (by simp [same])
            case isFalse => exact .inr found
  rcases general entries .empty h with mem | found
  · exact mem
  · rw [get?_empty] at found
    cases found

private theorem Label.isName_of_spelled (label : Label) (h : label.terminal.Spelled) :
    isName label.text = true := by
  obtain ⟨kind, text, isLabel⟩ := label
  cases kind
  case identifier => exact h.1
  case arrayTypeWord | functionWord | objectWord =>
    cases (h : text = TokenKind.text _)
    dsimp only
    decide
  all_goals cases isLabel

private theorem mem_pathTerminals {name : String} {path : List String} (h : name ∈ path) :
    .name name ∈ pathTerminals path := by
  induction path with
  | nil => cases h
  | cons first path ih =>
      cases path with
      | nil => simpa using h
      | cons next path =>
          rcases List.mem_cons.1 h with rfl | h
          · simp
          · simp [ih h]

namespace Ty

/-! ## Lowering -/

/-- The same type with every component declared as it is resolved. -/
def redeclared : Ty → Ty
  | base b => base b
  | matrix k => matrix k
  | array _ r _ l => arrayOf r.redeclared l
  | record ls _ r => record ls (fun m => (r m).redeclared) fun m => (r m).redeclared
  | union ls _ r => union ls (fun m => (r m).redeclared) fun m => (r m).redeclared
  | function n _ r _ s =>
      function n (fun i => (r i).redeclared) (fun i => (r i).redeclared) s.redeclared s.redeclared
  | object c => object c

theorem redeclared_row {k : RowKind} {ls : NameSet} {d r : ls.Member → Ty} :
    (row k ls d r).redeclared =
      row k ls (fun m => (r m).redeclared) fun m => (r m).redeclared := by
  cases k <;> rfl

theorem redeclared_beq (t : Ty) : (t.redeclared == t) = true := by
  induction t using rowInduction with
  | base => exact BEq.refl _
  | matrix => exact BEq.refl _
  | array d r dl l _ ih => exact beq_array_iff.2 ⟨rfl, ih⟩
  | row k ls d r _ ih =>
      rw [redeclared_row]
      exact beq_row_iff.2 ⟨rfl, fun m _ => ih m⟩
  | function n d r dr s _ ih _ ih' => exact beq_function_iff.2 ⟨rfl, ih, ih'⟩
  | object => exact beq_object_iff.2 rfl

theorem rowOf_members {ls : NameSet} (f : ls.Member → Ty) :
    rowOf (ls.members.map fun m => (m.1, f m)) = .ok ⟨ls, f⟩ := by
  have names : (ls.members.map fun m => (m.1, f m)).map (·.1) = ls.toList := by
    rw [List.map_map]
    exact List.attach_map_subtype_val ls.toList
  rw [rowOf, Row.ofDistinct_eq_ok (by rw [names]; exact ls.nodup)]
  exact congrArg Except.ok (Row.tabulate_eq f)

private theorem functionOf_finRange {n : Nat} (f : Fin n → Ty) (s : Ty) :
    functionOf ((List.finRange n).map f) s = function n f f s s := by
  have general (params : List Ty) (size : params.length = n)
      (same : ∀ i, params.get (i.cast size.symm) = f i) :
      functionOf params s = function n f f s s := by
    subst size
    obtain rfl : params.get = f := funext same
    rfl
  exact general _ (by simp) (by simp)

theorem ofFieldExprs_map {α : Type} {label : α → String} {d : α → Derivation} {f : α → Ty}
    (items : List α) (each : ∀ i ∈ items, ofExpr (d i).expr = .ok (f i)) :
    ofFieldExprs (fieldExprs (items.map fun i => .mk (.ofName (label i)) (d i))) =
      .ok (items.map fun i => (label i, f i)) := by
  induction items with
  | nil => rfl
  | cons i items ih =>
      obtain ⟨first, rest⟩ := List.forall_mem_cons.1 each
      rw [List.map_cons, fieldExprs, ofFieldExprs, first, ih rest]
      rfl

theorem ofExpr_derivation (t : Ty) (writable : t.Writable) :
    ofExpr t.derivation.expr = .ok t.redeclared := by
  induction t with
  | base b => cases b <;> rfl
  | matrix k => cases k <;> rfl
  | array d r dl l _ ih =>
      cases l with
      | none =>
          rw [derivation, Derivation.expr, ofExpr, ih writable.1]
          rfl
      | some n =>
          have fits : n ≤ Reader.maxLength := Nat.le_sub_one_of_lt (writable.2 n rfl)
          have value : (Numeral.ofNat? n).map Numeral.value = some n := by
            rw [Numeral.ofNat?, dif_pos fits]
            exact congrArg some (Reader.decimalValue_toString n)
          rw [derivation, Derivation.expr, ofExpr, ih writable.1, value]
          rfl
  | record ls d r _ ih =>
      rw [derivation, Derivation.expr, ofExpr, ofFieldExprs_map _ fun m _ => ih m (writable.2 m)]
      change (do return ofFields (← rowOf _)) = _
      rw [rowOf_members]
      rfl
  | union ls d r _ ih =>
      rw [derivation, Derivation.expr, ofExpr, ofFieldExprs_map _ fun m _ => ih m (writable.2 m)]
      change (do return ofAlternatives (← rowOf _)) = _
      rw [rowOf_members]
      rfl
  | function n d r dr s _ ih _ ih' =>
      rw [derivation, Derivation.expr, ofExpr, ofFieldExprs_map _ fun i _ => ih i (writable.1 i),
        ih' writable.2]
      refine congrArg Except.ok (Eq.trans ?_ (functionOf_finRange (fun i => (r i).redeclared) _))
      rw [List.map_map]
      rfl
  | object c =>
      cases c with
      | named path =>
        rw [derivation, Derivation.expr, if_neg (by simpa using writable.1)]
        rfl
      | _ => rfl

mutual

theorem ofExpr_bare (e : Expr) : ofExpr e.bare = ofExpr e := by
  match e with
  | .named .. | .matrix .. | .object .. => rfl
  | .array e n _ => rw [Expr.bare, ofExpr, ofExpr, ofExpr_bare e]
  | .record fields _ => rw [Expr.bare, ofExpr, ofExpr, ofFieldExprs_bare fields]
  | .union fields _ => rw [Expr.bare, ofExpr, ofExpr, ofFieldExprs_bare fields]
  | .function params result _ =>
      rw [Expr.bare, ofExpr, ofExpr, ofFieldExprs_bare params, ofExpr_bare result]

theorem ofFieldExprs_bare (fields : List FieldExpr) :
    ofFieldExprs (bareFields fields) = ofFieldExprs fields := by
  match fields with
  | [] => rfl
  | .mk label type _ :: fields =>
      rw [bareFields, ofFieldExprs, ofFieldExprs, ofExpr_bare type, ofFieldExprs_bare fields]

end

theorem parse_eq_ok_iff {source : String} {t : Ty} :
    Ty.parse source = .ok t ↔
      ∃ d : Derivation, d.Derives source ∧ ofExpr d.expr = .ok t := by
  unfold Ty.parse
  constructor
  · intro h
    cases read : Expr.parse source with
    | error e => simp [read, Except.mapError, bind, Except.bind] at h
    | ok e =>
        obtain ⟨d, derives, denoted⟩ := Expr.exists_derives read
        rw [read] at h
        exact ⟨d, derives, by rw [← denoted, ofExpr_bare]; exact h⟩
  · rintro ⟨d, derives, h⟩
    obtain ⟨e, read, denoted⟩ := derives.parse
    rw [read]
    rw [← denoted, ofExpr_bare] at h
    exact h

theorem parse_text (t : Ty) (writable : t.Writable) : Ty.parse t.text = .ok t.redeclared :=
  parse_eq_ok_iff.2 ⟨_, derivation_derives t writable, ofExpr_derivation t writable⟩

/-! ## Types that were read -/

/-- A type as it is read: its text can be read and gives it back. -/
def Fresh (t : Ty) : Prop := t.Writable ∧ t.redeclared = t

theorem Fresh.arrayOf {t : Ty} (h : t.Fresh) {length : Option Nat}
    (fits : ∀ n ∈ length, n < wordLimit) : (arrayOf t length).Fresh :=
  ⟨⟨h.1, fits⟩, by rw [Ty.arrayOf, redeclared, h.2]; rfl⟩

theorem Fresh.functionOf {params : List Ty} {result : Ty} (h : ∀ t ∈ params, t.Fresh)
    (h' : result.Fresh) : (functionOf params result).Fresh := by
  have same : (fun i => (params.get i).redeclared) = params.get :=
    funext fun i => (h _ (List.get_mem params i)).2
  exact ⟨⟨fun i => (h _ (List.get_mem params i)).1, h'.1⟩,
    by rw [Ty.functionOf, redeclared, same, h'.2]⟩

theorem mem_of_rowOf {entries : List (String × Ty)} {row : Row Ty} (h : rowOf entries = .ok row)
    (m : row.labels.Member) : (m.1, row.value m) ∈ entries := by
  rw [rowOf] at h
  cases distinct : Row.ofDistinct entries with
  | error label => simp [distinct, Except.mapError] at h
  | ok row' =>
      obtain rfl : row' = row := by simpa [distinct, Except.mapError] using h
      exact Row.mem_of_ofDistinct distinct (NameSet.find?_member _ _ m)

theorem fresh_row (k : RowKind) {entries : List (String × Ty)} {row : Row Ty}
    (built : rowOf entries = .ok row) (fresh : ∀ e ∈ entries, isName e.1 = true ∧ e.2.Fresh) :
    (Ty.row k row.labels row.value row.value).Fresh := by
  have each (m : row.labels.Member) := fresh _ (mem_of_rowOf built m)
  have same : (fun m => (row.value m).redeclared) = row.value := funext fun m => (each m).2.2
  refine ⟨?_, by rw [redeclared_row, same]⟩
  cases k <;> exact ⟨fun m => (each m).1, fun m => (each m).2.1⟩

private theorem fresh_recordOf {entries : List (String × Ty)} {t : Ty}
    (h : recordOf entries = .ok t) (fresh : ∀ e ∈ entries, isName e.1 = true ∧ e.2.Fresh) :
    t.Fresh := by
  obtain ⟨row, built, h⟩ := bind_eq_ok_iff.1 h
  obtain rfl : ofFields row = t := Except.ok.inj h
  exact fresh_row .record built fresh

private theorem fresh_unionOf {entries : List (String × Ty)} {t : Ty} (h : unionOf entries = .ok t)
    (fresh : ∀ e ∈ entries, isName e.1 = true ∧ e.2.Fresh) : t.Fresh := by
  obtain ⟨row, built, h⟩ := bind_eq_ok_iff.1 h
  obtain rfl : ofAlternatives row = t := Except.ok.inj h
  exact fresh_row .union built fresh

private theorem fresh_named {name : String} {t : Ty} (h : named name = .ok t) : t.Fresh := by
  unfold named at h
  split at h
  · obtain rfl := Except.ok.inj h
    exact ⟨trivial, rfl⟩
  · split at h
    · obtain rfl := Except.ok.inj h
      exact ⟨trivial, rfl⟩
    · cases h

private theorem fresh_matrixOf {element : String} {t : Ty} (h : matrixOf element = .ok t) :
    t.Fresh := by
  unfold matrixOf at h
  split at h
  · obtain rfl := Except.ok.inj h
    exact ⟨trivial, rfl⟩
  · cases h

mutual

theorem fresh_of_ofExpr (d : Derivation) (spelled : ∀ s ∈ d.terminals, s.Spelled) {t : Ty}
    (h : ofExpr d.expr = .ok t) : t.Fresh := by
  match d with
  | .name n => exact fresh_named h
  | .matrix e => exact fresh_matrixOf h
  | .sized e n =>
      obtain ⟨u, element, h⟩ := bind_eq_ok_iff.1 h
      obtain rfl := Except.ok.inj h
      have fresh := fresh_of_ofExpr e (fun s mem => spelled s (by simp [Derivation.terminals, mem]))
        element
      refine fresh.arrayOf fun k mem => ?_
      obtain ⟨n, rfl, rfl⟩ := Option.map_eq_some_iff.1 mem
      exact Nat.lt_of_le_of_lt n.fits (by decide)
  | .braced e =>
      obtain ⟨u, element, h⟩ := bind_eq_ok_iff.1 h
      obtain rfl := Except.ok.inj h
      have fresh := fresh_of_ofExpr e (fun s mem => spelled s (by simp [Derivation.terminals, mem]))
        element
      exact fresh.arrayOf (by simp)
  | .record fields =>
      obtain ⟨entries, lowered, h⟩ := bind_eq_ok_iff.1 h
      exact fresh_recordOf h (fresh_of_ofFieldExprs fields .equals
        (fun s mem => spelled s (by simp [Derivation.terminals, mem])) lowered)
  | .union fields =>
      obtain ⟨entries, lowered, h⟩ := bind_eq_ok_iff.1 h
      exact fresh_unionOf h (fresh_of_ofFieldExprs fields .equals
        (fun s mem => spelled s (by simp [Derivation.terminals, mem])) lowered)
  | .function params result =>
      obtain ⟨entries, lowered, h⟩ := bind_eq_ok_iff.1 h
      obtain ⟨u, loweredResult, h⟩ := bind_eq_ok_iff.1 h
      obtain rfl := Except.ok.inj h
      have fresh := fresh_of_ofFieldExprs params .colon
        (fun s mem => spelled s (by simp [Derivation.terminals, mem])) lowered
      refine Fresh.functionOf ?_ (fresh_of_ofExpr result
        (fun s mem => spelled s (by simp [Derivation.terminals, mem])) loweredResult)
      intro t mem
      obtain ⟨e, given, rfl⟩ := List.mem_map.1 mem
      exact (fresh e given).2
  | .object =>
      obtain rfl := Except.ok.inj h
      exact ⟨trivial, rfl⟩
  | .objectOf path =>
      obtain rfl := Except.ok.inj h
      refine ⟨?_, rfl⟩
      cases path with
      | nil => exact trivial
      | cons name names =>
        refine ⟨by simp, fun n mem => ?_⟩
        exact spelled (.name n) (by simp [Derivation.terminals, mem_pathTerminals mem])

theorem fresh_of_ofFieldExprs (fields : List FieldDerivation) (separator : TokenKind)
    (spelled : ∀ s ∈ fieldsTerminals separator fields, s.Spelled) {entries : List (String × Ty)}
    (h : ofFieldExprs (fieldExprs fields) = .ok entries) :
    ∀ e ∈ entries, isName e.1 = true ∧ e.2.Fresh := by
  match fields with
  | [] =>
      obtain rfl := Except.ok.inj h
      simp
  | .mk label type :: fields =>
      rw [fieldsTerminals_cons] at spelled
      obtain ⟨t, first, h⟩ := bind_eq_ok_iff.1 h
      obtain ⟨more, rest, h⟩ := bind_eq_ok_iff.1 h
      obtain rfl := Except.ok.inj h
      refine List.forall_mem_cons.2 ⟨⟨?_, ?_⟩, ?_⟩
      · exact label.isName_of_spelled (spelled _ (by simp))
      · exact fresh_of_ofExpr type (fun s mem => spelled s (by simp [mem])) first
      · refine fresh_of_ofFieldExprs fields separator (fun s mem => spelled s ?_) rest
        cases fields with
        | nil => cases mem
        | cons => simp [moreTerminals, mem]

end

theorem fresh_of_parse {source : String} {t : Ty} (h : Ty.parse source = .ok t) : t.Fresh := by
  obtain ⟨d, derives, lowered⟩ := parse_eq_ok_iff.1 h
  refine fresh_of_ofExpr d (fun s mem => ?_) lowered
  have found : some s ∈ (tokenize source).map Lexeme.terminal? := by
    rw [derives]
    exact List.mem_map_of_mem mem
  obtain ⟨lexeme, scanned, same⟩ := List.mem_map.1 found
  cases lexeme with
  | stray => cases same
  | token t =>
      obtain rfl := Option.some.inj same
      exact spelled_of_mem_tokenize scanned

/-- The text of a type is read back as what the type denotes, so types with one text denote
the same, and what was read comes back from its text. -/
theorem text_roundTrip :
    (∀ t : Ty, t.Writable → ∃ u, Ty.parse t.text = .ok u ∧ (u == t) = true) ∧
    (∀ t u : Ty, t.Writable → u.Writable → t.text = u.text → (t == u) = true) ∧
    ∀ (source : String) (t : Ty), Ty.parse source = .ok t → Ty.parse t.text = .ok t := by
  refine ⟨fun t writable => ⟨_, parse_text t writable, t.redeclared_beq⟩, ?_, ?_⟩
  · intro t u writable writable' same
    have read := parse_text t writable
    rw [same, parse_text u writable'] at read
    have fresh : u.redeclared = t.redeclared := Except.ok.inj read
    exact BEq.trans (BEq.symm t.redeclared_beq) (fresh ▸ u.redeclared_beq)
  · intro source t read
    obtain ⟨writable, same⟩ := fresh_of_parse read
    rw [parse_text t writable, same]

theorem text_roundTrip_keyword :
    let labels : NameSet := ⟨["object"], List.pairwise_singleton _ _⟩
    let resolved : Ty := object (.named ["a", "b"])
    let t := record labels (fun _ => unknown) fun _ => resolved
    let u := record labels (fun _ => resolved) fun _ => resolved
    t.Writable ∧ t.text = "\x7bobject = object(a/b)\x7d" ∧ t.text = u.text ∧ (t == u) = true ∧
      ∃ v, Ty.parse t.text = .ok v ∧ (v == t) = true ∧ Ty.parse v.text = .ok v := by
  intro labels resolved t u
  have path : resolved.Writable := by
    refine ⟨by simp, ?_⟩
    decide
  have writable : t.Writable := by
    refine ⟨?_, fun _ => path⟩
    rintro ⟨label, mem⟩
    obtain rfl : label = "object" := by simpa [labels, NameSet.mem_def] using mem
    exact (by decide : isName "object" = true)
  obtain ⟨v, read, same⟩ := text_roundTrip.1 t writable
  exact ⟨writable, by decide, rfl, text_roundTrip.2.1 t u writable writable rfl,
    v, read, same, text_roundTrip.2.2 _ v read⟩

end Ty

end DataflowTypes
