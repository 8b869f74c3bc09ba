import CommandScript.Scope.Collection

/-!
# The store after a change

A store is seen through `find`, `parent?` and `local?`. Every change touches one scope:
`define` one of its bindings, `add` creates it, `sever` empties it. Below, each view of
the changed store is given by the views of the old one.

* `find_define`, `find_add`, `find_sever`: the scopes themselves.
* `local?_define`, `parent?_define`: a definition binds one name and moves no scope.
* `find_foldl_sever_of_not_mem`: severing other scopes does not change a scope.
* `Binds`: a scope itself binds a name to a value; `mem_links_iff`: the links of a scope
  are its parent and the closures that it binds.
-/

namespace CommandScript.Scopes

theorem find_isSome_iff {scopes : Scopes} {id : ScopeId} :
    (scopes.find id).isSome ↔ id < scopes.nextId := by
  simp [find, nextId]

theorem lt_of_find {scopes : Scopes} {id : ScopeId} {scope : Scope}
    (h : scopes.find id = some scope) : id < scopes.nextId :=
  find_isSome_iff.mp (by rw [h]; rfl)

theorem exists_find {scopes : Scopes} {id : ScopeId} (h : id < scopes.nextId) :
    ∃ scope, scopes.find id = some scope :=
  Option.isSome_iff_exists.mp (find_isSome_iff.mpr h)

theorem lt_of_local? {scopes : Scopes} {id : ScopeId} {name : String}
    (h : (scopes.local? id name).isSome) : id < scopes.nextId := by
  obtain ⟨value, h⟩ := Option.isSome_iff_exists.mp h
  obtain ⟨scope, hs, _⟩ := Option.bind_eq_some_iff.mp h
  exact lt_of_find hs

theorem nearest?_eq_ite (scopes : Scopes) (id : ScopeId) (name : String) :
    scopes.nearest? id name =
      if (scopes.local? id name).isSome then some id
      else (scopes.parent? id).bind fun parent => scopes.nearest? parent name := by
  rw [nearest?]
  split
  · rfl
  · split <;> rename_i hp <;> rw [hp] <;> rfl

/-- The nearest scope that binds a name does bind it. -/
theorem local?_of_nearest? {scopes : Scopes} {id found : ScopeId} {name : String}
    (h : scopes.nearest? id name = some found) : (scopes.local? found name).isSome := by
  fun_induction nearest? scopes id name with
  | case1 id hbound =>
    obtain rfl := Option.some.inj h
    exact hbound
  | case2 _ _ _ _ ih => exact ih h
  | case3 => cases h

/-! ## Definitions -/

@[simp] theorem nextId_define (scopes : Scopes) (id : ScopeId) (name : String) (value : Value) :
    (scopes.define id name value).nextId = scopes.nextId := by
  simp [define, modifyBindings, nextId]

theorem find_define (scopes : Scopes) (id other : ScopeId) (name : String) (value : Value) :
    (scopes.define id name value).find other =
      if other = id then
        (scopes.find other).map fun scope =>
          { scope with bindings := scope.bindings.set name value }
      else scopes.find other := by
  simp only [define, modifyBindings, find, Array.getElem?_modify]
  by_cases h : id = other
  · simp [h]
  · simp [h, Ne.symm h]

@[simp] theorem parent?_define (scopes : Scopes) (id other : ScopeId) (name : String)
    (value : Value) : (scopes.define id name value).parent? other = scopes.parent? other := by
  simp only [parent?, find_define]
  split
  · cases scopes.find other <;> rfl
  · rfl

theorem local?_define {scopes : Scopes} {id : ScopeId} (h : id < scopes.nextId)
    (other : ScopeId) (name asked : String) (value : Value) :
    (scopes.define id name value).local? other asked =
      if other = id ∧ asked = name then some value else scopes.local? other asked := by
  obtain ⟨scope, hs⟩ := exists_find h
  simp only [local?, find_define]
  by_cases ho : other = id
  · subst ho
    simp [hs, Bindings.get?_set]
  · simp [ho]

theorem local?_define_isSome {scopes : Scopes} {id other : ScopeId} {name asked : String}
    {value : Value} (h : (scopes.local? other asked).isSome) :
    ((scopes.define id name value).local? other asked).isSome := by
  by_cases hid : id < scopes.nextId
  · rw [local?_define hid]
    split
    · rfl
    · exact h
  · have hne : other ≠ id := fun e => hid (e ▸ lt_of_local? h)
    simpa only [local?, find_define, if_neg hne] using h

/-! ## New scopes -/

@[simp] theorem nextId_add (scopes : Scopes) (parent : Option ScopeId) :
    (scopes.add parent).nextId = scopes.nextId + 1 := by
  simp [add, nextId]

theorem find_add (scopes : Scopes) (parent : Option ScopeId) (id : ScopeId) :
    (scopes.add parent).find id =
      if id = scopes.nextId then some ⟨[], parent.filter (· < scopes.nextId)⟩
      else scopes.find id := by
  simp only [add, find, nextId, Array.getElem?_push]
  by_cases h : id = scopes.cells.size
  · simp only [h, if_true]
    rfl
  · simp only [h, if_false]

theorem find_add_of_lt {scopes : Scopes} {id : ScopeId} (h : id < scopes.nextId)
    (parent : Option ScopeId) : (scopes.add parent).find id = scopes.find id := by
  rw [find_add, if_neg (Nat.ne_of_lt h)]

theorem parent?_add_of_lt {scopes : Scopes} {id : ScopeId} (h : id < scopes.nextId)
    (parent : Option ScopeId) : (scopes.add parent).parent? id = scopes.parent? id := by
  rw [parent?, find_add_of_lt h, parent?]

theorem local?_add_of_lt {scopes : Scopes} {id : ScopeId} (h : id < scopes.nextId)
    (parent : Option ScopeId) (name : String) :
    (scopes.add parent).local? id name = scopes.local? id name := by
  rw [local?, find_add_of_lt h, local?]

theorem parent?_add_new {scopes : Scopes} {parent : ScopeId} (h : parent < scopes.nextId) :
    (scopes.add (some parent)).parent? scopes.nextId = some parent := by
  simp [parent?, find_add, h]

theorem local?_add_new (scopes : Scopes) (parent : Option ScopeId) (name : String) :
    (scopes.add parent).local? scopes.nextId name = none := by
  simp [local?, find_add, Bindings.get?]

/-! ## Severed scopes -/

@[simp] theorem nextId_sever (scopes : Scopes) (id : ScopeId) :
    (scopes.sever id).nextId = scopes.nextId := by
  simp [sever, nextId]

theorem find_sever (scopes : Scopes) (id other : ScopeId) :
    (scopes.sever id).find other =
      if other = id then (scopes.find other).map fun _ => ⟨[], none⟩ else scopes.find other := by
  simp only [sever, find, Array.getElem?_modify]
  by_cases h : id = other
  · simp [h]
  · simp [h, Ne.symm h]

@[simp] theorem nextId_foldl_sever (ids : List ScopeId) (scopes : Scopes) :
    (ids.foldl sever scopes).nextId = scopes.nextId := by
  induction ids generalizing scopes with
  | nil => rfl
  | cons id rest ih => rw [List.foldl_cons, ih, nextId_sever]

theorem find_foldl_sever_of_not_mem {ids : List ScopeId} {id : ScopeId} (h : id ∉ ids)
    (scopes : Scopes) : (ids.foldl sever scopes).find id = scopes.find id := by
  induction ids generalizing scopes with
  | nil => rfl
  | cons severed rest ih =>
    obtain ⟨hne, hrest⟩ := not_or.mp (mt List.mem_cons.mpr h)
    rw [List.foldl_cons, ih hrest, find_sever, if_neg hne]

/-! ## Bindings and links -/

/-- The scope `id` itself binds the name to the value. -/
def Binds (scopes : Scopes) (id : ScopeId) (name : String) (value : Value) : Prop :=
  ∃ scope, scopes.find id = some scope ∧ (name, value) ∈ scope.bindings

theorem binds_of_local? {scopes : Scopes} {id : ScopeId} {name : String} {value : Value}
    (h : scopes.local? id name = some value) : scopes.Binds id name value := by
  obtain ⟨scope, hs, hv⟩ := Option.bind_eq_some_iff.mp h
  obtain ⟨before, after, hsplit, _⟩ := List.lookup_eq_some_iff.mp hv
  exact ⟨scope, hs, by rw [hsplit]; simp⟩

theorem Binds.local?_isSome {scopes : Scopes} {id : ScopeId} {name : String} {value : Value}
    (h : scopes.Binds id name value) : (scopes.local? id name).isSome := by
  obtain ⟨scope, hs, hmem⟩ := h
  simp only [local?, hs, Option.bind_some, Bindings.get?, List.lookup_isSome_iff]
  exact ⟨_, hmem, by simp⟩

theorem mem_bindings_set {bindings : Bindings} {name key : String}
    {value held : Value} (h : (key, held) ∈ bindings.set name value) :
    (key, held) ∈ bindings ∨ key = name ∧ held = value := by
  induction bindings with
  | nil => exact .inr (by simpa [Bindings.set] using h)
  | cons binding rest ih =>
    obtain ⟨other, old⟩ := binding
    unfold Bindings.set at h
    split at h
    · rcases List.mem_cons.mp h with h | h
      · exact .inr (by simpa using h)
      · exact .inl (List.mem_cons_of_mem _ h)
    · rcases List.mem_cons.mp h with h | h
      · exact .inl (h ▸ List.mem_cons_self)
      · exact (ih h).imp_left (List.mem_cons_of_mem _)

theorem Binds.of_define {scopes : Scopes} {id other : ScopeId} {name key : String}
    {value held : Value} (h : (scopes.define id name value).Binds other key held) :
    scopes.Binds other key held ∨ other = id ∧ key = name ∧ held = value := by
  obtain ⟨scope, hs, hmem⟩ := h
  rw [find_define] at hs
  split at hs
  · rename_i hid
    obtain ⟨old, ho, rfl⟩ := Option.map_eq_some_iff.mp hs
    rcases mem_bindings_set hmem with hmem | hnew
    · exact .inl ⟨old, ho, hmem⟩
    · exact .inr ⟨hid, hnew⟩
  · exact .inl ⟨scope, hs, hmem⟩

theorem Binds.of_add {scopes : Scopes} {parent : Option ScopeId} {id : ScopeId} {key : String}
    {held : Value} (h : (scopes.add parent).Binds id key held) : scopes.Binds id key held := by
  obtain ⟨scope, hs, hmem⟩ := h
  rw [find_add] at hs
  split at hs
  · obtain rfl := Option.some.inj hs
    cases hmem
  · exact ⟨scope, hs, hmem⟩

theorem mem_links_iff {scopes : Scopes} {id linked : ScopeId} :
    linked ∈ scopes.links id ↔
      scopes.parent? id = some linked ∨
        ∃ name value, scopes.Binds id name value ∧ value.closure? = some linked := by
  unfold links parent? Binds
  cases scopes.find id with
  | none => simp
  | some scope => simp

end CommandScript.Scopes
