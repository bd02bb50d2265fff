import JppDos.Lib.Json

/-!
# Edits of a JSON value

Members that are added, deleted or changed where they stand, and objects that are added where
they are missing.  An edit below some paths keeps what all other paths lead to, and an edit of
an object leads on as the edit of its members does.

Main fact:
* `lookup_sanitize`: a value that is read back leads to the same places.
-/

namespace JppDos
namespace Json

open CText

variable {ν : Type}

/-- The member has that name, upper and lower case alike. -/
def named (name : CStr) (m : CStr × Json ν) : Bool := m.1.fold = name.fold

/-- `cJSON_AddItemToObject`: a member at the end; an array prints it without its name, and
any other value does not print it. -/
def addItem (v : Json ν) (name : CStr) (item : Json ν) : Json ν :=
  match v with
  | object members => object (members ++ [(name, item)])
  | array items => array (items ++ [item])
  | v => v

/-- `cJSON_DeleteItemFromObject`: the first member of that name goes. -/
def deleteItem (v : Json ν) (name : CStr) : Json ν :=
  match v with
  | object members => object (members.eraseP (named name))
  | v => v

/-- The first member of that name is changed. -/
def modifyMembers (name : CStr) (f : Json ν → Json ν) : List (CStr × Json ν) → List (CStr × Json ν)
  | [] => []
  | m :: members =>
      if named name m then (m.1, f m.2) :: members else m :: modifyMembers name f members

/-- An item that is changed where it stands. -/
def modifyItem (v : Json ν) (name : CStr) (f : Json ν → Json ν) : Json ν :=
  match v with
  | object members => object (modifyMembers name f members)
  | v => v

/-- The object of that name is changed, a new one where there is none. -/
def withObject (name : CStr) (f : Json ν → Json ν) (v : Json ν) : Json ν :=
  match v.getItem name with
  | some (object _) => v.modifyItem name f
  | _ => v.addItem name (f (object []))

/-- The members of an object. -/
def members? : Json ν → Option (List (CStr × Json ν))
  | object members => some members
  | _ => none

/-- The members of the object of that name in an object; a missing one has none. -/
def objectAt (v : Json ν) (name : CStr) : Option (List (CStr × Json ν)) :=
  v.members?.bind fun _ => ((v.getItem name).getD (object [])).members?

/-- What a path of names leads to. -/
def lookup (v : Json ν) : List CStr → Option (Json ν)
  | [] => some v
  | name :: path => (v.getItem name).bind fun item => item.lookup path

theorem getItem_object (members : List (CStr × Json ν)) (name : CStr) :
    (object members).getItem name = (members.find? (named name)).map (·.2) := rfl

theorem named_congr {name name' : CStr} (h : name.fold = name'.fold) :
    (named name : CStr × Json ν → Bool) = named name' := by
  funext m
  rw [named, named, h]

theorem named_ne {name name' : CStr} (h : name.fold ≠ name'.fold) {m : CStr × Json ν}
    (hm : named name m = true) : named name' m = false :=
  decide_eq_false fun heq => h ((of_decide_eq_true hm).symm.trans heq)

/-- A member that is added is found where there was none of its name. -/
theorem getItem_addItem (members : List (CStr × Json ν)) (name name' : CStr) (item : Json ν) :
    ((object members).addItem name item).getItem name' =
      ((object members).getItem name').or (if name.fold = name'.fold then some item else none) := by
  rw [addItem, getItem_object, getItem_object, List.find?_append, List.find?_singleton]
  cases members.find? (named name') with
  | some m => rfl
  | none =>
      by_cases h : name.fold = name'.fold
      · simp [named, h]
      · simp [named, h]

theorem getItem_deleteItem (v : Json ν) {name name' : CStr} (h : name.fold ≠ name'.fold) :
    (v.deleteItem name).getItem name' = v.getItem name' := by
  cases v with
  | object members =>
      rw [deleteItem, getItem_object, getItem_object]
      congr 1
      induction members with
      | nil => rfl
      | cons m members ih =>
          by_cases hm : named name m = true
          · rw [List.eraseP_cons_of_pos hm, List.find?_cons_of_neg]
            simp [named_ne h hm]
          · rw [List.eraseP_cons_of_neg hm, List.find?_cons, List.find?_cons, ih]
  | null | bool b | number n | string s | array items => rfl

theorem getItem_modifyItem (v : Json ν) (name name' : CStr) (f : Json ν → Json ν) :
    (v.modifyItem name f).getItem name' =
      if name.fold = name'.fold then (v.getItem name').map f else v.getItem name' := by
  cases v with
  | object members =>
      rw [modifyItem, getItem_object, getItem_object]
      induction members with
      | nil => simp [modifyMembers]
      | cons m members ih =>
          rw [modifyMembers]
          by_cases hm : named name m = true
          · rw [if_pos hm]
            by_cases h : name.fold = name'.fold
            · rw [if_pos h, List.find?_cons_of_pos, List.find?_cons_of_pos]
              · rfl
              · rwa [← named_congr h]
              · rwa [← named_congr h]
            · have hno : named name' m = false := named_ne h hm
              rw [if_neg h, List.find?_cons_of_neg, List.find?_cons_of_neg]
              · simp [hno]
              · change ¬ named name' m = true
                simp [hno]
          · rw [if_neg hm, List.find?_cons, List.find?_cons]
            by_cases hm' : named name' m = true
            · have h : name.fold ≠ name'.fold := fun heq => hm (named_congr (ν := ν) heq ▸ hm')
              rw [hm', if_neg h]
            · rw [Bool.not_eq_true] at hm'
              rw [hm']
              exact ih
  | null | bool b | number n | string s | array items => simp [modifyItem, getItem]

theorem lookup_cons (v : Json ν) (name : CStr) (path : List CStr) :
    v.lookup (name :: path) = (v.getItem name).bind fun item => item.lookup path := rfl

theorem lookup_singleton (v : Json ν) (name : CStr) : v.lookup [name] = v.getItem name :=
  Option.bind_fun_some _

theorem lookup_congr {v w : Json ν} {name : CStr} (h : v.getItem name = w.getItem name)
    (path : List CStr) : v.lookup (name :: path) = w.lookup (name :: path) := by
  rw [lookup_cons, lookup_cons, h]

theorem getItem_congr (v : Json ν) {name name' : CStr} (h : name.fold = name'.fold) :
    v.getItem name = v.getItem name' := by
  cases v with
  | object members => rw [getItem_object, getItem_object, named_congr h]
  | null | bool b | number n | string s | array items => rfl

theorem lookup_eq_members (v : Json ν) {path : List CStr} (hpath : path ≠ []) :
    v.lookup path = v.members?.bind fun members => (object members).lookup path := by
  obtain ⟨name, path, rfl⟩ := List.exists_cons_of_ne_nil hpath
  cases v <;> rfl

theorem lookup_eq_objectAt (v : Json ν) (name : CStr) {path : List CStr} (hpath : path ≠ []) :
    v.lookup (name :: path) =
      (v.objectAt name).bind fun members => (object members).lookup path := by
  rw [lookup_cons, objectAt]
  cases v with
  | object members =>
      cases (object members).getItem name with
      | none =>
          obtain ⟨name', path, rfl⟩ := List.exists_cons_of_ne_nil hpath
          rfl
      | some item => exact lookup_eq_members item hpath
  | null | bool b | number n | string s | array items => rfl

/-- A path through an edited object leads on in the edited members. -/
theorem lookup_withObject (v : Json ν) {name name' : CStr} (h : name.fold = name'.fold)
    (f : Json ν → Json ν) {path : List CStr} (hpath : path ≠ []) :
    (v.withObject name f).lookup (name' :: path) =
      (v.objectAt name).bind fun members => (f (object members)).lookup path := by
  rw [lookup_cons, ← getItem_congr _ h, objectAt]
  cases v with
  | object members =>
      rw [withObject]
      cases hitem : (object members).getItem name with
      | none =>
          simp only [getItem_addItem, hitem]
          rw [Option.none_or, if_pos trivial]
          rfl
      | some item =>
          cases item with
          | object inner =>
              simp only [getItem_modifyItem, hitem]
              rw [if_pos trivial]
              rfl
          | null | bool b | number n | string s | array items =>
              simp only [getItem_addItem, hitem]
              exact lookup_eq_members _ hpath
  | null | bool b | number n | string s | array items => rfl

theorem getItem_withObject_ne (v : Json ν) {name name' : CStr} (h : name.fold ≠ name'.fold)
    (f : Json ν → Json ν) : (v.withObject name f).getItem name' = v.getItem name' := by
  cases v with
  | object members =>
      rw [withObject]
      split
      · rw [getItem_modifyItem, if_neg h]
      · rw [getItem_addItem, if_neg h, Option.or_none]
  | null | bool b | number n | string s | array items => rfl

/-- Two paths part at some name. -/
def Apart : List CStr → List CStr → Prop
  | a :: target, b :: path => a.fold ≠ b.fold ∨ Apart target path
  | _, _ => False

/-- An edit keeps what all paths apart from its targets lead to. -/
def Keeps (f : Json ν → Json ν) (targets : List (List CStr)) : Prop :=
  ∀ v path, path ≠ [] → (∀ target ∈ targets, Apart target path) → (f v).lookup path = v.lookup path

theorem Keeps.comp {f g : Json ν → Json ν} {targets : List (List CStr)} (hf : Keeps f targets)
    (hg : Keeps g targets) : Keeps (fun v => f (g v)) targets := fun v path hpath hapart =>
  (hf (g v) path hpath hapart).trans (hg v path hpath hapart)

theorem Keeps.mono {f : Json ν → Json ν} {targets more : List (List CStr)} (hf : Keeps f targets)
    (h : targets ⊆ more) : Keeps f more := fun v path hpath hapart =>
  hf v path hpath fun target htarget => hapart target (h htarget)

theorem keeps_of_getItem {f : Json ν → Json ν} {name : CStr}
    (h : ∀ v name', name.fold ≠ name'.fold → (f v).getItem name' = v.getItem name') :
    Keeps f [[name]] := by
  intro v path hpath hapart
  obtain ⟨name', path, rfl⟩ := List.exists_cons_of_ne_nil hpath
  rcases hapart [name] List.mem_cons_self with hne | hnil
  · exact lookup_congr (h v name' hne) path
  · cases path <;> exact absurd hnil id

theorem keeps_deleteItem (name : CStr) :
    Keeps (fun v : Json ν => v.deleteItem name) [[name]] :=
  keeps_of_getItem fun v _ h => getItem_deleteItem v h

theorem keeps_addItem (name : CStr) (item : Json ν) : Keeps (·.addItem name item) [[name]] := by
  refine keeps_of_getItem fun v name' h => ?_
  cases v with
  | object members => rw [getItem_addItem, if_neg h, Option.or_none]
  | null | bool b | number n | string s | array items => rfl

theorem Keeps.withObject {f : Json ν → Json ν} {targets : List (List CStr)} (hf : Keeps f targets)
    (htargets : targets ≠ []) (name : CStr) :
    Keeps (withObject name f) (targets.map (name :: ·)) := by
  intro v path hpath hapart
  obtain ⟨name', path, rfl⟩ := List.exists_cons_of_ne_nil hpath
  by_cases h : name.fold = name'.fold
  · have hinner : ∀ target ∈ targets, Apart target path := fun target htarget =>
      (hapart _ (List.mem_map_of_mem htarget)).resolve_left (not_not_intro h)
    have hrest : path ≠ [] := by
      obtain ⟨target, rest, rfl⟩ := List.exists_cons_of_ne_nil htargets
      rintro rfl
      cases target <;> exact absurd (hinner _ List.mem_cons_self) id
    rw [lookup_withObject v h f hrest, lookup_cons, ← getItem_congr v h, ← lookup_cons,
      lookup_eq_objectAt v name hrest]
    congr 1
    funext members
    exact hf (object members) path hrest hinner
  · exact lookup_congr (getItem_withObject_ne v h f) path

/-- A value that is read back leads to the same places. -/
theorem lookup_sanitize (finite : ν → Bool) (v : Json ν) (path : List CStr) :
    (v.sanitize finite).lookup path = (v.lookup path).map (sanitize finite) := by
  induction path generalizing v with
  | nil => rfl
  | cons name path ih =>
      rw [lookup_cons, lookup_cons, getItem_sanitize]
      cases v.getItem name with
      | none => rfl
      | some item => exact ih item

theorem depthMembers_le_iff {members : List (CStr × Json ν)} {n : Nat} :
    depthMembers members ≤ n ↔ ∀ m ∈ members, m.2.depth ≤ n := by
  induction members with
  | nil => simp [depthMembers]
  | cons m members ih => simp [depthMembers, ih]

theorem depth_object_le_iff {members : List (CStr × Json ν)} {n : Nat} :
    (object members).depth ≤ n + 1 ↔ ∀ m ∈ members, m.2.depth ≤ n := by
  rw [depth, Nat.add_le_add_iff_right, depthMembers_le_iff]

theorem depthItems_append_le {items : List (Json ν)} {item : Json ν} {n : Nat}
    (hitems : depthItems items ≤ n) (hitem : item.depth ≤ n) :
    depthItems (items ++ [item]) ≤ n := by
  induction items with
  | nil => simpa [depthItems] using hitem
  | cons v items ih =>
      simp only [depthItems, List.cons_append, Nat.max_le] at hitems ⊢
      exact ⟨hitems.1, ih hitems.2⟩

theorem depth_addItem {v item : Json ν} {n : Nat} (hv : v.depth ≤ n + 1) (hitem : item.depth ≤ n)
    (name : CStr) : (v.addItem name item).depth ≤ n + 1 := by
  cases v with
  | object members =>
      rw [depth_object_le_iff] at hv
      refine depth_object_le_iff.mpr fun m hm => ?_
      rcases List.mem_append.mp hm with hm | hm
      · exact hv m hm
      · rw [List.mem_singleton.mp hm]
        exact hitem
  | array items =>
      rw [depth] at hv
      exact Nat.succ_le_succ (depthItems_append_le (Nat.le_of_succ_le_succ hv) hitem)
  | null | bool b | number n | string s => exact hv

theorem depth_deleteItem {v : Json ν} {n : Nat} (hv : v.depth ≤ n + 1) (name : CStr) :
    (v.deleteItem name).depth ≤ n + 1 := by
  cases v with
  | object members =>
      rw [depth_object_le_iff] at hv
      exact depth_object_le_iff.mpr fun m hm => hv m (List.mem_of_mem_eraseP hm)
  | null | bool b | number n | string s | array items => exact hv

theorem mem_modifyMembers {name : CStr} {f : Json ν → Json ν} {members : List (CStr × Json ν)}
    {m : CStr × Json ν} (h : m ∈ modifyMembers name f members) :
    m ∈ members ∨ ∃ old ∈ members, m = (old.1, f old.2) := by
  induction members with
  | nil => exact .inl h
  | cons old members ih =>
      rw [modifyMembers] at h
      split at h
      · rcases List.mem_cons.mp h with rfl | h
        · exact .inr ⟨old, List.mem_cons_self, rfl⟩
        · exact .inl (List.mem_cons_of_mem old h)
      · rcases List.mem_cons.mp h with rfl | h
        · exact .inl List.mem_cons_self
        · rcases ih h with h | ⟨m', hm', heq⟩
          · exact .inl (List.mem_cons_of_mem old h)
          · exact .inr ⟨m', List.mem_cons_of_mem old hm', heq⟩

/-- An edit inside an object that adds no depth adds none outside. -/
theorem depth_withObject {f : Json ν → Json ν} {n : Nat}
    (hf : ∀ v : Json ν, v.depth ≤ n + 1 → (f v).depth ≤ n + 1) {v : Json ν}
    (hv : v.depth ≤ n + 2) (name : CStr) : (v.withObject name f).depth ≤ n + 2 := by
  have hnew : (f (object [])).depth ≤ n + 1 :=
    hf _ (depth_object_le_iff.mpr fun m hm => absurd hm List.not_mem_nil)
  rw [withObject]
  split
  · cases v with
    | object members =>
        rw [depth_object_le_iff] at hv
        refine depth_object_le_iff.mpr fun m hm => ?_
        rcases mem_modifyMembers hm with hm | ⟨old, hold, rfl⟩
        · exact hv m hm
        · exact hf old.2 (hv old hold)
    | null | bool b | number n | string s | array items => exact hv
  · exact depth_addItem hv hnew name

end Json
end JppDos
