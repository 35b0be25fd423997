import ContentCard.Json.Value

/-!
# Members of objects

What a look-up finds in an object after members were dropped, put in, changed or renamed.
-/

namespace ContentCard.Json.Members

/-! ## 1. Dropping, putting in and changing -/

theorem get?_nil (key : String) : get? [] key = none := rfl

theorem get?_cons (k key : String) (v : Value) (rest : Members) :
    get? ((k, v) :: rest) key = if key = k then some v else get? rest key := by
  by_cases h : key = k
  · rw [if_pos h, get?, List.lookup_cons, beq_iff_eq.mpr h]
  · rw [if_neg h, get?, List.lookup_cons, beq_eq_false_iff_ne.mpr h]
    rfl

/-- Dropping members by their keys. -/
theorem get?_filter (members : Members) (keep : String → Bool) (key : String) :
    get? (members.filter fun m => keep m.1) key = if keep key then members.get? key else none := by
  induction members with
  | nil => rw [List.filter_nil, get?_nil, ite_self]
  | cons m rest ih =>
    obtain ⟨k, v⟩ := m
    rw [List.filter_cons, get?_cons]
    by_cases h : key = k
    · subst h
      by_cases hk : keep key
      · rw [if_pos hk, get?_cons, if_pos rfl, if_pos hk, if_pos rfl]
      · rw [if_neg hk, ih, if_neg hk, if_neg hk]
    · rw [if_neg h, ← ih]
      by_cases hk : keep k
      · rw [if_pos hk, get?_cons, if_neg h]
      · rw [if_neg hk]

/-- Drops the member under a key. -/
def erase (members : Members) (k : String) : Members := members.filter fun m => m.1 ≠ k

theorem get?_erase (members : Members) (k key : String) :
    (members.erase k).get? key = if key = k then none else members.get? key := by
  have h := get?_filter members (fun key => key ≠ k) key
  rw [erase, h]
  by_cases hk : key = k
  · rw [if_pos hk, if_neg (by simpa using hk)]
  · rw [if_neg hk, if_pos (by simpa using hk)]

theorem get?_erase_self (members : Members) (k : String) : (members.erase k).get? k = none := by
  rw [get?_erase, if_pos rfl]

theorem get?_erase_of_ne (members : Members) {k key : String} (h : key ≠ k) :
    (members.erase k).get? key = members.get? key := by
  rw [get?_erase, if_neg h]

theorem get?_insert (members : Members) (k key : String) (v : Value) :
    (members.insert k v).get? key = if key = k then some v else members.get? key := by
  induction members with
  | nil => rw [insert, get?_cons]
  | cons m rest ih =>
    obtain ⟨k', v'⟩ := m
    rw [insert, get?_cons k']
    by_cases hk : k = k'
    · subst hk
      rw [if_pos rfl, get?_cons]
      by_cases h : key = k
      · rw [if_pos h, if_pos h]
      · rw [if_neg h, if_neg h, if_neg h]
    · rw [if_neg hk]
      by_cases hlt : k < k'
      · rw [if_pos hlt, get?_cons, get?_cons]
      · rw [if_neg hlt, get?_cons, ih]
        by_cases h : key = k
        · rw [if_pos h, if_neg (h ▸ hk), if_pos h]
        · rw [if_neg h, if_neg h]

theorem get?_insert_self (members : Members) (k : String) (v : Value) :
    (members.insert k v).get? k = some v := by
  rw [get?_insert, if_pos rfl]

theorem get?_insert_of_ne (members : Members) {k key : String} (h : key ≠ k) (v : Value) :
    (members.insert k v).get? key = members.get? key := by
  rw [get?_insert, if_neg h]

/-- Changing the value of every member by a rule that may look at its key. -/
theorem get?_map (members : Members) (f : String → Value → Value) (key : String) :
    get? (members.map fun m => (m.1, f m.1 m.2)) key = (members.get? key).map (f key) := by
  induction members with
  | nil => rfl
  | cons m rest ih =>
    obtain ⟨k, v⟩ := m
    rw [List.map_cons, get?_cons, get?_cons, ih]
    by_cases h : key = k
    · rw [if_pos h, if_pos h, h, Option.map_some]
    · rw [if_neg h, if_neg h]

/-- Changes the value under one key. -/
def modify (members : Members) (key : String) (f : Value → Value) : Members :=
  members.map fun m => (m.1, if m.1 = key then f m.2 else m.2)

theorem get?_modify (members : Members) (k key : String) (f : Value → Value) :
    (members.modify k f).get? key =
      if key = k then (members.get? key).map f else members.get? key := by
  have h := get?_map members (fun k' v => if k' = k then f v else v) key
  rw [modify, h]
  by_cases hk : key = k
  · simp only [if_pos hk]
  · simp only [if_neg hk, Option.map_id']

/-- The members whose values pass a test that may look at the key.  As in every look-up, the first
member of a key stands for it. -/
def keep (members : Members) (pass : String → Value → Bool) : Members :=
  members.filter fun m => (members.get? m.1).any (pass m.1)

theorem get?_keep (members : Members) (pass : String → Value → Bool) (key : String) :
    (members.keep pass).get? key = (members.get? key).filter (pass key) := by
  have h := get?_filter members (fun k => (members.get? k).any (pass k)) key
  rw [keep, h]
  cases members.get? key with
  | none => rfl
  | some v => rw [Option.any_some, Option.filter_some]

/-! ## 2. Renaming -/

/-- Puts the member under an old key under a new one, where no member has the new key. -/
def rename (members : Members) (old new : String) : Members :=
  match members.get? old, members.get? new with
  | some v, none => Members.insert (members.filter fun m => m.1 ≠ old) new v
  | _, _ => members

section Rename

variable (members : Members) (old new : String)

theorem get?_rename_new :
    (members.rename old new).get? new = (members.get? new).or (members.get? old) := by
  rw [rename]
  cases members.get? old with
  | none => exact Option.or_none.symm
  | some v =>
    cases hn : members.get? new with
    | none => exact (get?_insert _ _ _ _).trans (if_pos rfl)
    | some w => exact hn

theorem get?_rename_old (h : old ≠ new) :
    (members.rename old new).get? old =
      if (members.get? new).isSome then members.get? old else none := by
  rw [rename]
  cases ho : members.get? old with
  | none =>
    rw [ite_self]
    exact ho
  | some v =>
    cases members.get? new with
    | none =>
      -- the member leaves its old place before it comes to the new one
      have hf := get?_filter members (fun k => k ≠ old) old
      rw [if_neg (by rw [decide_eq_true_eq]; exact fun he => he rfl)] at hf
      exact (get?_insert _ _ _ _).trans ((if_neg h).trans hf)
    | some w => exact ho

/-- A reader that takes the new key, or else the old one, reads the same after the renaming,
whatever it takes for a value. -/
theorem bind_or_bind_rename {α : Type} (h : old ≠ new) (read : Value → Option α) :
    (((members.rename old new).get? new).bind read).or
        (((members.rename old new).get? old).bind read) =
      ((members.get? new).bind read).or ((members.get? old).bind read) := by
  rw [get?_rename_new, get?_rename_old _ _ _ h]
  cases members.get? new with
  | none => exact Option.or_none
  -- a member of the new key keeps the old one where it is, also if it is not what is looked for
  | some v => rfl

end Rename

/-! ## 3. Members that agree -/

/-- The same members, those under some keys aside. -/
def AgreeOff (keys : List String) (m m' : Members) : Prop :=
  ∀ key, key ∉ keys → m.get? key = m'.get? key

namespace AgreeOff

variable {keys : List String} {m m' : Members} {key : String}

/-- Members that are equal once those under the keys are dropped. -/
theorem of_filter (h : (m.filter fun x => x.1 ∉ keys) = m'.filter fun x => x.1 ∉ keys) :
    AgreeOff keys m m' := by
  intro key hk
  have hm := get?_filter m (fun k => k ∉ keys) key
  have hm' := get?_filter m' (fun k => k ∉ keys) key
  rw [if_pos (decide_eq_true hk)] at hm hm'
  rw [← hm, ← hm', h]

theorem mono {keys' : List String} (h : AgreeOff keys m m') (hk : keys ⊆ keys') :
    AgreeOff keys' m m' :=
  fun key hn => h key fun hm => hn (hk hm)

theorem trans {keys' : List String} {m'' : Members} (h : AgreeOff keys m m')
    (h' : AgreeOff keys' m' m'') : AgreeOff (keys ++ keys') m m'' := by
  intro key hk
  rw [List.mem_append, not_or] at hk
  exact (h key hk.1).trans (h' key hk.2)

theorem string? (h : AgreeOff keys m m') (hk : key ∉ keys) : m.string? key = m'.string? key := by
  rw [Members.string?, Members.string?, h key hk]

end AgreeOff

theorem agreeOff_modify (members : Members) (key : String) (f : Value → Value) :
    AgreeOff [key] (members.modify key f) members := by
  intro k hk
  rw [get?_modify, if_neg (List.ne_of_not_mem_cons hk)]

theorem agreeOff_insert (members : Members) (key : String) (v : Value) :
    AgreeOff [key] (members.insert key v) members := by
  intro k hk
  exact members.get?_insert_of_ne (List.ne_of_not_mem_cons hk) v

theorem agreeOff_erase (members : Members) (key : String) :
    AgreeOff [key] (members.erase key) members := by
  intro k hk
  exact members.get?_erase_of_ne (List.ne_of_not_mem_cons hk)

theorem agreeOff_rename (members : Members) (old new : String) :
    AgreeOff [old, new] (members.rename old new) members := by
  intro key hk
  rw [List.mem_cons, List.mem_singleton, not_or] at hk
  rw [rename]
  split
  · have hf := get?_filter members (fun k => k ≠ old) key
    rw [if_pos (decide_eq_true hk.1)] at hf
    exact (get?_insert _ _ _ _).trans ((if_neg hk.2).trans hf)
  · rfl

end ContentCard.Json.Members
