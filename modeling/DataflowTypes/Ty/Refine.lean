import DataflowTypes.Error

/-!
# Refining types within their declared form

A type is an instance of another if it can be had from the declared form of the
other by replacing `unknown`.  `fill` puts one type at every place that can be
refined; `update` makes a type equal to a given instance of it.

A refinement can be refused after some components have been changed: components
are set in order, and the first one that refuses ends the update.
-/

namespace DataflowTypes

namespace Ty

/-- Whether the second type is an instance of the declared form of the first. -/
def hasInstance : Ty → Ty → Bool
  | base .unknown, _ => true
  | base a, base b => a == b
  | matrix a, matrix b => a == b
  | array d _ dl _, array _ r _ l => (dl.isNone || dl == l) && d.hasInstance r
  | record la d _, record lb _ r | union la d _, union lb _ r =>
      la == lb && la.members.all fun m =>
        if h : m.1 ∈ lb then (d m).hasInstance (r ⟨m.1, h⟩) else false
  | function n d _ dr _, function k _ r _ s =>
      n == k && (List.finRange n).all (fun i =>
        if h : i.1 < k then (d i).hasInstance (r ⟨i.1, h⟩) else false) && dr.hasInstance s
  | object a, object b => a == b
  | _, _ => false

/-! ## Filling -/

def fillComponent (t declared resolved : Ty) (filled : Unit → Ty) : Ty :=
  if declared.isConstant then resolved else if declared.isUnknown then t else filled ()

/-- Resets the type to its declared form, with `t` at every place that can be refined.
A flat type has no such place. -/
def fill (t : Ty) : Ty → Ty
  | array d r dl _ => array d (fillComponent t d r fun _ => fill t d) dl dl
  | record ls d r =>
      record ls d ((Row.tabulate ls fun m =>
        fillComponent t (d m) (r m) fun _ => fill t (d m)).on ls unknown)
  | union ls d r =>
      union ls d ((Row.tabulate ls fun m =>
        fillComponent t (d m) (r m) fun _ => fill t (d m)).on ls unknown)
  | function n d r dr s =>
      function n d (Vector.ofFn fun i => fillComponent t (d i) (r i) fun _ => fill t (d i)).get
        dr (fillComponent t dr s fun _ => fill t dr)
  | other => other

/-! ## Updating -/

/-- The outcome of an update: the type afterwards, and why it was refused if it was. -/
structure Update where
  type : Ty
  refusal : Option TypeError := none

/-- The update of a whole type, given the rule for its components: a constant type
takes only what it denotes already, `unknown` takes anything. -/
def updateBy (t : Ty) (components : Ty → Update) (new : Ty) : Update :=
  if t.isConstant then
    if t == new then { type := t } else { type := t, refusal := some (.constantType t new) }
  else if t.isUnknown then { type := new }
  else components new

/-- Sets a component, given how its declared type is updated; a component that
refuses is left as it is. -/
def setComponent (declared resolved : Ty) (update : Ty → Update) (new : Ty) :
    Except TypeError Ty :=
  if declared.isConstant then
    if resolved == new then .ok resolved else .error (.constantType resolved new)
  else if !declared.hasInstance new then .error (.notInstance declared new)
  else if declared.isUnknown then .ok new
  else match update new with
    | { type, refusal := none } => .ok type
    | { refusal := some e, .. } => .error e

/-- Sets components in order until one refuses; the rest keep their types. -/
def setInOrder {ι : Type} (old : ι → Ty) (set : ι → Except TypeError Ty) :
    List ι → List (ι × Ty) × Option TypeError
  | [] => ([], none)
  | i :: is =>
      match set i with
      | .ok t =>
          let (rest, refusal) := setInOrder old set is
          ((i, t) :: rest, refusal)
      | .error e => ((i :: is).map fun j => (j, old j), some e)

def setRow (ls : NameSet) (old : ls.Member → Ty) (set : ls.Member → Except TypeError Ty) :
    (ls.Member → Ty) × Option TypeError :=
  let (entries, refusal) := setInOrder old set ls.members
  ((Row.ofList (entries.map fun (m, t) => (m.1, t))).on ls unknown, refusal)

def setParams {n : Nat} (old : Fin n → Ty) (set : Fin n → Except TypeError Ty) :
    (Fin n → Ty) × Option TypeError :=
  let (entries, refusal) := setInOrder old set (List.finRange n)
  let types := (entries.map (·.2)).toArray
  (fun i => types.getD i.1 unknown, refusal)

/-- The rule of a family for copying the resolved components of `new` into a type of
that family. -/
def updateComponents : Ty → Ty → Update
  | array d r dl l, new =>
      match new with
      | array _ r' _ l' =>
          if dl.isSome && dl != l' then
            { type := array d r dl l, refusal := some (.notInstance (array d r dl l) new) }
          else match setComponent d r (updateBy d (updateComponents d)) r' with
            | .ok r => { type := array d r dl l' }
            | .error e => { type := array d r dl l, refusal := some e }
      | _ => { type := array d r dl l, refusal := some (.notInstance (array d r dl l) new) }
  | record ls d r, new =>
      match new with
      | record ls' _ r' =>
          if ls = ls' then
            let (r, refusal) := setRow ls r fun m =>
              setComponent (d m) (r m) (updateBy (d m) (updateComponents (d m)))
                ((ls'.find? r' m.1).getD unknown)
            { type := record ls d r, refusal }
          else { type := record ls d r, refusal := some (.notInstance (record ls d r) new) }
      | _ => { type := record ls d r, refusal := some (.notInstance (record ls d r) new) }
  | union ls d r, new =>
      match new with
      | union ls' _ r' =>
          if ls = ls' then
            let (r, refusal) := setRow ls r fun m =>
              setComponent (d m) (r m) (updateBy (d m) (updateComponents (d m)))
                ((ls'.find? r' m.1).getD unknown)
            { type := union ls d r, refusal }
          else { type := union ls d r, refusal := some (.notInstance (union ls d r) new) }
      | _ => { type := union ls d r, refusal := some (.notInstance (union ls d r) new) }
  | function n d r dr s, new =>
      match new with
      | function k _ r' _ s' =>
          if h : n = k then
            let (r, refusal) := setParams r fun i =>
              setComponent (d i) (r i) (updateBy (d i) (updateComponents (d i))) (r' (i.cast h))
            if refusal.isSome then { type := function n d r dr s, refusal }
            else match setComponent dr s (updateBy dr (updateComponents dr)) s' with
              | .ok s => { type := function n d r dr s }
              | .error e => { type := function n d r dr s, refusal := some e }
          else
            { type := function n d r dr s
              refusal := some (.notInstance (function n d r dr s) new) }
      | _ =>
          { type := function n d r dr s
            refusal := some (.notInstance (function n d r dr s) new) }
  | object c, new =>
      if object c == new then { type := object c }
      else { type := object c, refusal := some (.constantType (object c) new) }
  | base b, new => { type := base b, refusal := some (.notInstance (base b) new) }
  | matrix k, new => { type := matrix k, refusal := some (.notInstance (matrix k) new) }

def update (t new : Ty) : Update := updateBy t (updateComponents t) new

end Ty

namespace Component

def fill (c : Component) (t : Ty) : Component :=
  { c with resolved := Ty.fillComponent t c.declared c.resolved fun _ => Ty.fill t c.declared }

def set (c : Component) (t : Ty) : Except TypeError Component :=
  return { c with resolved := ← Ty.setComponent c.declared c.resolved c.declared.update t }

end Component

end DataflowTypes
