import ContentCard.Web.Address
import Mathlib.Data.List.Basic

/-!
# The characters of an address's text

An address may be read from any text, but its own text has no control characters: what could be one
is written with escapes, and neither a scheme nor a host has any.
-/

namespace ContentCard.Web

/-- No character is a control character of ASCII. -/
def IsPlain (cs : List Char) : Prop := ∀ c ∈ cs, 0x20 ≤ c.toNat

instance (cs : List Char) : Decidable (IsPlain cs) := List.decidableBAll _ _

namespace IsPlain

theorem nil : IsPlain [] := List.forall_mem_nil _

theorem append {cs ds : List Char} (hc : IsPlain cs) (hd : IsPlain ds) : IsPlain (cs ++ ds) :=
  List.forall_mem_append.mpr ⟨hc, hd⟩

theorem flatMap {α : Type} {xs : List α} {f : α → List Char} (h : ∀ x ∈ xs, IsPlain (f x)) :
    IsPlain (xs.flatMap f) := by
  intro c hc
  obtain ⟨x, hx, hc⟩ := List.mem_flatMap.mp hc
  exact h x hx c hc

theorem intercalate {mark : List Char} (hm : IsPlain mark) {parts : List (List Char)}
    (h : ∀ part ∈ parts, IsPlain part) : IsPlain (mark.intercalate parts) := by
  induction parts with
  | nil => exact nil
  | cons part rest ih =>
    obtain ⟨hpart, hrest⟩ := List.forall_mem_cons.mp h
    cases rest with
    | nil => rwa [List.intercalate_singleton]
    | cons next rest =>
      rw [List.intercalate_cons_cons]
      exact (hpart.append hm).append (ih hrest)

end IsPlain

/-! ## 1. Escapes and numbers -/

theorem isPlain_percentByte (b : UInt8) : IsPlain (percentByte b) := by
  have hdigit (n : Nat) : 0x20 ≤ (hexDigits.getD n '0').toNat := by
    rw [List.getD_eq_getElem?_getD]
    cases h : hexDigits[n]? with
    | none => decide
    | some c =>
      have hall : IsPlain hexDigits := by decide
      exact hall c (List.mem_of_getElem? h)
  intro c hc
  simp only [percentByte, List.mem_cons, List.not_mem_nil, or_false] at hc
  rcases hc with rfl | rfl | rfl
  · decide
  · exact hdigit _
  · exact hdigit _

theorem isPlain_encode (reserved cs : List Char) : IsPlain (encode reserved cs) := by
  apply IsPlain.flatMap
  intro c _
  split
  · exact IsPlain.flatMap fun b _ => isPlain_percentByte b
  · rename_i h
    intro d hd
    simp only [isControl, Bool.or_eq_true, decide_eq_true_eq, not_or] at h
    rw [List.mem_singleton.mp hd]
    omega

theorem isPlain_digitChar (n : Nat) : IsPlain [n.digitChar] := by
  rw [IsPlain, List.forall_mem_singleton]
  by_cases h : n < 16
  · have hall : ∀ k < 16, 0x20 ≤ (Nat.digitChar k).toNat := by decide
    exact hall n h
  · rw [Nat.digitChar_eq_star.mpr (by omega)]
    decide

theorem isPlain_toDigits {base : Nat} (hb : 1 < base) (n : Nat) :
    IsPlain (Nat.toDigits base n) := by
  induction n using Nat.strongRecOn with
  | ind n ih =>
    by_cases h : n < base
    · rw [Nat.toDigits_of_lt_base h]
      exact isPlain_digitChar n
    · rw [Nat.toDigits_of_base_le hb (by omega)]
      exact (ih _ (Nat.div_lt_self (by omega) hb)).append (isPlain_digitChar _)

theorem isPlain_toString (n : Nat) : IsPlain (toString n).toList := by
  rw [Nat.toString_eq_repr, Nat.repr_eq_ofList_toDigits, String.toList_ofList]
  exact isPlain_toDigits (by decide) n

/-! ## 2. Hosts -/

theorem isPlain_ofBytes? {bytes : List UInt8} {name : List Char}
    (h : Domain.ofBytes? bytes = some name) : IsPlain name := by
  simp only [Domain.ofBytes?, Option.bind_eq_bind, Option.bind_eq_some_iff] at h
  obtain ⟨text, -, folded, -, parts, -, h⟩ := h
  split at h
  · cases h
  · rename_i hf
    rw [Option.some.inj h] at hf
    intro c hc
    by_contra hn
    have hforbidden : Domain.forbidden c = true := by
      simp only [Domain.forbidden, Bool.or_eq_true, decide_eq_true_eq]
      left; left
      omega
    exact hf (List.any_eq_true.mpr ⟨c, hc, hforbidden⟩)

namespace Host

theorem isPlain_fourText (address : Nat) : IsPlain (fourText address).toList := by
  rw [fourText, String.toList_intercalate]
  apply IsPlain.intercalate (by decide)
  intro part hp
  simp only [List.mem_map] at hp
  obtain ⟨_, ⟨k, -, rfl⟩, rfl⟩ := hp
  exact isPlain_toString _

theorem isPlain_sixteenText (groups : List Nat) : IsPlain (sixteenText groups).toList := by
  have hside (gs : List Nat) : IsPlain (":".intercalate (gs.map groupText)).toList := by
    rw [String.toList_intercalate]
    apply IsPlain.intercalate (by decide)
    intro part hp
    simp only [List.mem_map] at hp
    obtain ⟨_, ⟨n, -, rfl⟩, rfl⟩ := hp
    rw [groupText, String.toList_ofList]
    exact isPlain_toDigits (by decide) n
  rw [sixteenText]
  cases gap? groups with
  | none => exact hside groups
  | some gap =>
    simp only [String.toList_append]
    exact ((hside _).append (by decide)).append (hside _)

theorem isPlain_bracketed? {cs : List Char} {host : Host} (h : bracketed? cs = some host) :
    IsPlain host.text.toList := by
  rw [bracketed?, Option.ite_none_right_eq_some, Option.map_eq_some_iff] at h
  obtain ⟨-, groups, -, rfl⟩ := h
  rw [text, String.toList_append, String.toList_append]
  exact (IsPlain.append (by decide) (isPlain_sixteenText groups)).append (by decide)

theorem isPlain_parse? {cs : List Char} {host : Host} (h : parse? cs = some host) :
    IsPlain host.text.toList := by
  unfold parse? at h
  split at h
  · exact isPlain_bracketed? h
  · obtain ⟨name, hname, h⟩ := Option.bind_eq_some_iff.mp h
    split at h
    · cases h
    split at h
    · obtain ⟨address, -, rfl⟩ := Option.map_eq_some_iff.mp h
      exact isPlain_fourText address
    · rw [← Option.some.inj h, text, String.toList_ofList]
      exact isPlain_ofBytes? hname

theorem isPlain_parseOpaque? {cs : List Char} {host : Host} (h : parseOpaque? cs = some host) :
    IsPlain host.text.toList := by
  unfold parseOpaque? at h
  split at h
  · exact isPlain_bracketed? h
  · split at h
    · cases h
    · rw [← Option.some.inj h, text, String.toList_ofList]
      exact isPlain_encode [] _

end Host

namespace Address

/-! ## 3. Paths -/

theorem mem_shorten {kind : SchemeKind} {done : List (List Char)} {part : List Char}
    (h : part ∈ shorten kind done) : part ∈ done := by
  unfold shorten at h
  split at h
  · split at h
    · exact h
    · cases h
  · exact List.mem_of_mem_drop h

/-- The segments of a path are those that were added, or empty, or a drive letter. -/
theorem isPlain_addSegments {kind : SchemeKind} {done segments : List (List Char)}
    (hd : ∀ part ∈ done, IsPlain part) (hs : ∀ part ∈ segments, IsPlain part) :
    ∀ part ∈ addSegments kind done segments, IsPlain part := by
  induction segments generalizing done with
  | nil => exact hd
  | cons segment rest ih =>
    obtain ⟨hsegment, hrest⟩ := List.forall_mem_cons.mp hs
    -- a step up removes segments, and the last step leaves an empty one behind
    have hup : ∀ part ∈ shorten kind done, IsPlain part := fun part h => hd part (mem_shorten h)
    have hnil {ds : List (List Char)} (h : ∀ part ∈ ds, IsPlain part) (last : Bool) :
        ∀ part ∈ if last then [] :: ds else ds, IsPlain part := by
      cases last with
      | false => exact h
      | true => exact List.forall_mem_cons.mpr ⟨.nil, h⟩
    unfold addSegments
    split
    · exact ih (hnil hd _) hrest
    · exact ih (hnil hup _) hrest
    · refine ih (List.forall_mem_cons.mpr ⟨?_, hd⟩) hrest
      split
      · split
        · have hc := hsegment _ List.mem_cons_self
          exact List.forall_mem_cons.mpr ⟨hc, List.forall_mem_singleton.mpr (by decide)⟩
        · exact hsegment
      · exact hsegment

theorem isPlain_pathOf (kind : SchemeKind) (text : List Char) :
    ∀ part ∈ pathOf kind text, IsPlain part := by
  have hparts : ∀ part ∈ (splitSegments kind text).map (encode pathSet), IsPlain part := by
    intro part hp
    obtain ⟨segment, -, rfl⟩ := List.mem_map.mp hp
    exact isPlain_encode pathSet segment
  have hpath : ∀ part ∈ (addSegments kind [] ((splitSegments kind text).map
      (encode pathSet))).reverse, IsPlain part := fun part hp =>
    isPlain_addSegments (List.forall_mem_nil _) hparts part (List.mem_reverse.mp hp)
  rw [pathOf]
  split
  · split
    · exact fun part hp => List.mem_singleton.mp hp ▸ .nil
    · rename_i rest _ hrest
      exact fun part hp => hpath part ((List.dropWhile_sublist _).subset hp)
  · exact hpath

theorem isPlain_segmentsText {parts : List (List Char)} (h : ∀ part ∈ parts, IsPlain part) :
    IsPlain (segmentsText parts).toList := by
  rw [segmentsText, String.toList_join, List.flatMap_map]
  apply IsPlain.flatMap
  intro part hp
  simp only [String.toList_append, String.toList_ofList]
  exact IsPlain.append (by decide) (h part hp)

/-! ## 4. Addresses -/

/-- The parts of an address as they are written. -/
structure Plain (a : Address) : Prop where
  scheme : IsPlain a.scheme
  authority : ∀ x ∈ a.authority, IsPlain (authorityText x).toList
  path : ∀ hasHost, IsPlain (pathText hasHost a.path).toList
  query : ∀ cs ∈ a.query, IsPlain cs
  fragment : ∀ cs ∈ a.fragment, IsPlain cs

theorem Plain.text {a : Address} (h : a.Plain) : IsPlain a.text.toList := by
  have hauthority : IsPlain ((a.authority.map authorityText).getD "").toList := by
    cases ha : a.authority with
    | none => exact .nil
    | some x => exact h.authority x ha
  simp only [Address.text, String.toList_append, String.toList_ofList]
  refine ((((h.scheme.append (by decide)).append hauthority).append (h.path _)).append ?_).append ?_
  · cases hq : a.query with
    | none => exact .nil
    | some cs =>
      simp only [String.toList_append, String.toList_ofList]
      exact IsPlain.append (by decide) (h.query cs hq)
  · cases hf : a.fragment with
    | none => exact .nil
    | some cs =>
      simp only [String.toList_append, String.toList_ofList]
      exact IsPlain.append (by decide) (h.fragment cs hf)

theorem plain_finish {scheme : List Char} {kind : SchemeKind} {authority : Option Authority}
    {path : Path} {query fragment : Option (List Char)} (hs : IsPlain scheme)
    (ha : ∀ x ∈ authority, IsPlain (authorityText x).toList)
    (hp : ∀ hasHost, IsPlain (pathText hasHost path).toList) :
    (finish scheme kind authority path query fragment).Plain where
  scheme := hs
  authority := ha
  path := hp
  query := by
    rintro _ hq
    obtain ⟨cs, -, rfl⟩ := Option.map_eq_some_iff.mp hq
    exact isPlain_encode _ cs
  fragment := by
    rintro _ hf
    obtain ⟨cs, -, rfl⟩ := Option.map_eq_some_iff.mp hf
    exact isPlain_encode _ cs

theorem isPlain_pathText_segments {parts : List (List Char)} (h : ∀ part ∈ parts, IsPlain part)
    (hasHost : Bool) : IsPlain (pathText hasHost (.segments parts)).toList := by
  unfold pathText
  split
  · rename_i heq
    cases heq
  · rename_i heq
    cases heq
    rw [String.toList_append]
    refine IsPlain.append ?_ (isPlain_segmentsText h)
    cases hasHost <;> decide
  · rename_i heq
    cases heq
    exact isPlain_segmentsText h

theorem isPlain_authorityText {a : Authority} (hu : IsPlain a.credentials.user)
    (hp : IsPlain a.credentials.password) (hh : IsPlain a.host.text.toList) :
    IsPlain (authorityText a).toList := by
  have hcredentials : IsPlain (credentialsText a.credentials).toList := by
    rw [credentialsText]
    split
    · exact .nil
    · split <;> simp only [String.toList_append, String.toList_ofList]
      · exact (hu.append .nil).append (by decide)
      · exact (hu.append (IsPlain.append (by decide) hp)).append (by decide)
  simp only [authorityText, String.toList_append]
  apply IsPlain.append ((IsPlain.append (by decide) hcredentials).append hh)
  cases a.portNumber with
  | none => exact .nil
  | some n =>
    dsimp only
    rw [String.toList_append]
    exact IsPlain.append (by decide) (isPlain_toString n)

theorem isPlain_of_authority? {scheme text : List Char} {kind : SchemeKind} {a : Authority}
    (h : authority? scheme kind text = some a) : IsPlain (authorityText a).toList := by
  unfold authority? at h
  have hc (user : Option (List Char)) :
      IsPlain ((user.map credentials).getD noCredentials).user ∧
        IsPlain ((user.map credentials).getD noCredentials).password := by
    cases user with
    | none => exact ⟨.nil, .nil⟩
    | some user => exact ⟨isPlain_encode _ _, isPlain_encode _ _⟩
  have hbuilt {host : Host} (hh : IsPlain host.text.toList) {user : Option (List Char)}
      {portNumber : Option Nat}
      (h : some ⟨(user.map credentials).getD noCredentials, host, portNumber⟩ = some a) :
      IsPlain (authorityText a).toList :=
    Option.some.inj h ▸ isPlain_authorityText (hc user).1 (hc user).2 hh
  simp only [Option.bind_eq_bind] at h
  -- what needs a host and has none is refused; the kind of the scheme says how a host is read
  split at h
  · cases h
  split at h
  · cases h
  split at h
  · obtain ⟨host, hhost, h⟩ := Option.bind_eq_some_iff.mp h
    have hh := Host.isPlain_parse? hhost
    split at h <;> obtain ⟨portNumber, -, h⟩ := Option.bind_eq_some_iff.mp h
    · exact hbuilt hh h
    · exact hbuilt hh h
  · obtain ⟨host, hhost, h⟩ := Option.bind_eq_some_iff.mp h
    have hh := Host.isPlain_parseOpaque? hhost
    split at h <;> obtain ⟨portNumber, -, h⟩ := Option.bind_eq_some_iff.mp h
    · exact hbuilt hh h
    · exact hbuilt hh h

theorem plain_withAuthority? {scheme text : List Char} {kind : SchemeKind}
    {query fragment : Option (List Char)} {a : Address} (hs : IsPlain scheme)
    (h : withAuthority? scheme kind text query fragment = some a) : a.Plain := by
  obtain ⟨authority, hauthority, h⟩ := Option.bind_eq_some_iff.mp h
  rw [← Option.some.inj h]
  apply plain_finish hs
  · rintro _ ⟨⟩
    exact isPlain_of_authority? hauthority
  · apply isPlain_pathText_segments
    split
    · exact List.forall_mem_nil _
    · exact isPlain_pathOf _ _

theorem plain_file? {text : List Char} {query fragment : Option (List Char)} {a : Address}
    (h : file? text query fragment = some a) : a.Plain := by
  have make {host : Host} (hh : IsPlain host.text.toList) {path : List (List Char)}
      (hp : ∀ part ∈ path, IsPlain part) :
      (finish "file".toList .file (some ⟨noCredentials, host, none⟩) (.segments path) query
        fragment).Plain := by
    apply plain_finish (by decide)
    · rintro _ ⟨⟩
      exact isPlain_authorityText .nil .nil hh
    · exact isPlain_pathText_segments hp
  -- a file without a host has an empty one
  have hname : IsPlain (Host.name []).text.toList := .nil
  unfold file? at h
  simp only [Option.bind_eq_bind] at h
  split at h
  · split at h
    · split at h
      · rw [← Option.some.inj h]
        exact make hname (isPlain_pathOf _ _)
      split at h
      · rw [← Option.some.inj h]
        exact make hname (isPlain_pathOf _ _)
      obtain ⟨host, hhost, h⟩ := Option.bind_eq_some_iff.mp h
      rw [← Option.some.inj h]
      apply make _ (isPlain_pathOf _ _)
      split
      · exact hname
      · exact Host.isPlain_parse? hhost
    · rw [← Option.some.inj h]
      exact make hname (isPlain_pathOf _ _)
  · rw [← Option.some.inj h]
    exact make hname (isPlain_pathOf _ _)

theorem toNat_toLower_ge {c : Char} (h : 0x20 ≤ c.toNat) : 0x20 ≤ c.toLower.toNat := by
  unfold Char.toLower
  split
  · rename_i hc
    have hlo : 65 ≤ c.val.toNat := hc.1
    have hhi : c.val.toNat ≤ 90 := hc.2
    show 0x20 ≤ (c.val + 32).toNat
    rw [UInt32.toNat_add]
    show 0x20 ≤ (c.val.toNat + 32) % 2 ^ 32
    omega
  · exact h

theorem toNat_ge_of_isAlphanum {c : Char} (h : c.isAlphanum) : 0x20 ≤ c.toNat := by
  have hcontrol : ∀ n < 0x20, (Char.ofNat n).isAlphanum = false := by decide
  by_contra hc
  have hn := hcontrol c.toNat (by omega)
  rw [Char.ofNat_toNat, h] at hn
  cases hn

theorem isPlain_of_splitScheme {text scheme rest : List Char}
    (h : splitScheme text = some (scheme, rest)) : IsPlain scheme := by
  unfold splitScheme at h
  dsimp only at h
  split at h
  · rename_i first more _ _ hscheme _
    split at h
    · rename_i hletters
      rw [Bool.and_eq_true, List.all_eq_true] at hletters
      rw [← (Prod.mk.inj (Option.some.inj h)).1, hscheme]
      have hletter : IsPlain (first :: more) := by
        intro c hc
        rcases List.mem_cons.mp hc with rfl | hc
        · exact toNat_ge_of_isAlphanum (by rw [Char.isAlphanum, hletters.1, Bool.true_or])
        · have hlater := hletters.2 c hc
          simp only [Bool.or_eq_true, beq_iff_eq] at hlater
          rcases hlater with ((ha | rfl) | rfl) | rfl
          · exact toNat_ge_of_isAlphanum ha
          all_goals decide
      -- a scheme is kept in lower case
      intro d hd
      obtain ⟨c, hc, rfl⟩ := List.mem_map.mp hd
      exact toNat_toLower_ge (hletter c hc)
    · cases h
  · cases h

/-- The text of an address that was read has no control characters. -/
theorem isPlain_text_of_parse? {input : String} {a : Address} (h : parse? input = some a) :
    IsPlain a.text.toList := by
  apply Plain.text
  obtain ⟨⟨scheme, rest⟩, hscheme, h⟩ := Option.bind_eq_some_iff.mp h
  have hs := isPlain_of_splitScheme hscheme
  dsimp only at h
  split at h
  · exact plain_file? h
  · exact plain_withAuthority? hs h
  · split at h
    · exact plain_withAuthority? hs h
    · rw [← Option.some.inj h]
      exact plain_finish hs (fun x h => absurd h (Option.not_mem_none x))
        (isPlain_pathText_segments (isPlain_pathOf _ _))
    · rw [← Option.some.inj h]
      apply plain_finish hs (fun x h => absurd h (Option.not_mem_none x))
      intro _
      rw [pathText, String.toList_ofList]
      exact isPlain_encode [] _

end Address

end ContentCard.Web
