import DataflowTypes.Proofs.Solver.Extremal
import DataflowTypes.Proofs.Ty.Conform

/-!
# One move of a partly declared variable

What a step of a run does to the cell of the variable that it moves.  Main statement: in
least mode a variable below a limit, whose bounds are below it too, is moved to a value
between its bounds and the limit, and is not refused, if the limit is an instance of its
declared form.
-/

namespace DataflowTypes

namespace Run

def Move.after (cell : Cell) : Move → Cell
  | .stay => cell
  | .goTo value => { value, state := .tentative }
  | .refuse _ => { cell with state := .conflicted }

theorem step_eq {p : Problem} {cells cells' : List Cell} {v : VarId} {cell : Cell} {x : Variable}
    {changed : Bool} {t t' : List Diagnostic} (cell_eq : cells[v.index]? = some cell)
    (found : p.store.get? v = some x) (free : cell.state ≠ .conflicted)
    (h : Yields (step Lattice.plain p cells v) t (cells', changed) t') :
    ∃ bounds, Turn p cells v cell x bounds ∧
      cells' = cells.set v.index
        ((Id.run (move Lattice.plain p.config.mode x.declared cell bounds)).after cell) := by
  simp only [step, cell_eq, found, free, if_false, yields_bind_iff, yields_query_iff] at h
  obtain ⟨bounds, t₁, values, _, t₂, ⟨rfl, rfl⟩, h⟩ := h
  obtain ⟨bounds_eq, rfl⟩ := (Gives.mapM (fun q => eval_gives cells _) _).yields_iff.1 values
  refine ⟨bounds, ⟨cell_eq, found, free, bounds_eq⟩, ?_⟩
  have unmoved : cells.set v.index cell = cells := by
    obtain ⟨inside, rfl⟩ := List.getElem?_eq_some_iff.1 cell_eq
    exact List.set_getElem_self inside
  generalize Id.run (move _ _ _ _ _) = movement at h
  cases movement with
  | stay =>
      obtain ⟨same, -⟩ := yields_pure_iff.1 h
      exact (Prod.mk.inj same).1.trans unmoved.symm
  | goTo value =>
      obtain ⟨same, -⟩ := yields_pure_iff.1 h
      exact (Prod.mk.inj same).1
  | refuse candidate =>
      simp only [yields_bind_iff, yields_emit_iff, yields_pure_iff] at h
      obtain ⟨_, _, -, same, -⟩ := h
      exact (Prod.mk.inj same).1

section

variable {declared : Ty} {cell : Cell} {bounds : List Ty}

private theorem firstValue_of_takes (unbound : cell.state = .unbound)
    (known : declared.isUnknown = false) (takes : declared.Takes (bounds.foldl Ty.join .unknown)) :
    ∃ value, Id.run (firstValue Lattice.plain .least declared cell bounds) = some value := by
  have proper : (bounds.foldl Ty.join .unknown).isUnknown = false := by
    by_contra unknown
    have bottom := Ty.isUnknown_of_hasInstance takes.1 (by simpa using unknown)
    simp [known] at bottom
  have raw : Id.run (applyBounds Lattice.plain .least .unknown bounds) =
      bounds.foldl Ty.join .unknown := applyBounds_plain .least _ _
  refine ⟨(declared.update (bounds.foldl Ty.join .unknown)).type, ?_⟩
  rw [firstValue, if_pos ⟨rfl, unbound⟩, Id.run_bind, raw, Id.run_pure, proper]
  exact conform_eq_some_iff.2 ⟨takes, rfl⟩

theorem takes_of_conform {candidate value : Ty} (coherent : declared.Coherent)
    (settable : declared.isConstant = false) (fits : conform declared candidate = some value) :
    declared.Takes value ∧ (value == candidate) = true := by
  have same := (hasInstance_of_conform fits).2
  obtain ⟨takes, rfl⟩ := conform_eq_some_iff.1 fits
  obtain ⟨below, above⟩ := Ty.below_of_beq same
  exact ⟨takes.between coherent settable takes.1 above below, same⟩

end

section

variable {declared limit a c : Ty} {cell : Cell} {bounds : List Ty}

theorem below_foldl_join (a : Ty) (bounds : List Ty) : a.Below (bounds.foldl Ty.join a) ∧
    ∀ b ∈ bounds, b.Below (bounds.foldl Ty.join a) :=
  SolveMode.foldl_combine_beyond .least bounds a

theorem foldl_join_below (regular : limit.Regular) (within : ∀ b ∈ bounds, b.Below limit)
    (first : a.Below limit) : (bounds.foldl Ty.join a).Below limit :=
  @SolveMode.beyond_foldl_combine .least limit regular bounds a first within

theorem between_of_beq (regular : limit.Regular) (within : ∀ b ∈ bounds, b.Below limit)
    (first : a.Below limit) (same : (c == bounds.foldl Ty.join a) = true) :
    c.Below limit ∧ ∀ b ∈ bounds, b.Below c := by
  obtain ⟨below, above⟩ := Ty.below_of_beq same
  exact ⟨below.trans (foldl_join_below regular within first),
    fun b mem => ((below_foldl_join a bounds).2 b mem).trans above⟩

/-- A move from below a limit towards bounds below it ends between them.  It need not start
below the limit if it starts anew, and the bounds are above a type that the form takes. -/
theorem move_spec (coherent : declared.Coherent) (settable : declared.isConstant = false)
    (regular : limit.Regular) (last : declared.hasInstance limit = true)
    (free : cell.state ≠ .conflicted) (takes : declared.Takes cell.value)
    (within : ∀ b ∈ bounds, b.Below limit)
    (start : cell.value.Below limit ∨ cell.state = .unbound ∧ declared.isUnknown = false ∧
      ∃ t, declared.Takes t ∧ ∃ b ∈ bounds, t.Below b) :
    let after := (Id.run (move Lattice.plain .least declared cell bounds)).after cell
    after.state ≠ .conflicted ∧ declared.Takes after.value ∧ after.value.Below limit ∧
      ∀ b ∈ bounds, b.Below after.value := by
  have bottom : Ty.unknown.Below limit := .bottom limit
  rw [move, Id.run_bind]
  cases first : Id.run (firstValue Lattice.plain .least declared cell bounds) with
  | some value =>
      obtain ⟨-, -, fits⟩ := firstValue_eq_some first
      obtain ⟨taken, same⟩ := takes_of_conform coherent settable fits
      cases unchanged : value == cell.value with
      | true =>
          have here := between_of_beq regular within bottom (BEq.trans (BEq.symm unchanged) same)
          simpa [unchanged, Move.after] using ⟨free, takes, here⟩
      | false =>
          simpa [unchanged, Move.after] using ⟨taken, between_of_beq regular within bottom same⟩
  | none =>
      -- A variable that starts anew towards such bounds gets a first value.
      have started : cell.value.Below limit := by
        refine start.resolve_right ?_
        rintro ⟨unbound, known, t, takes, b, mem, below⟩
        have above := below.trans ((below_foldl_join .unknown bounds).2 b mem)
        obtain ⟨value, some⟩ := firstValue_of_takes unbound known
          (takes.between coherent settable last above (foldl_join_below regular within bottom))
        rw [some] at first
        cases first
      have raised := applyBounds_plain .least cell.value bounds
      simp only [Id.run_bind, raised]
      cases unchanged : bounds.foldl Ty.join cell.value == cell.value with
      | true =>
          have here := between_of_beq regular within started (BEq.symm unchanged)
          simpa [unchanged, Move.after, SolveMode.combine] using ⟨free, takes, here⟩
      | false =>
          have fits := conform_eq_some_iff.2 ⟨takes.between coherent settable last
            (below_foldl_join cell.value bounds).1 (foldl_join_below regular within started), rfl⟩
          obtain ⟨taken, same⟩ := takes_of_conform coherent settable fits
          simpa [unchanged, fits, Move.after, SolveMode.combine] using
            ⟨taken, between_of_beq regular within started same⟩

end

end Run

end DataflowTypes
