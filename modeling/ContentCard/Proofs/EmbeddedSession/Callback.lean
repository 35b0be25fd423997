import ContentCard.EmbeddedSession
import ContentCard.Proofs.Visual.Children
import ContentCard.Proofs.Visual.Positions
import ContentCard.Proofs.Web.Plain

/-!
# What the host's callback is told of a tap

A host gets texts as bytes that end with a zero.  An address never has a zero in it, so a button's
address always reaches the host.  An identifier can have one: a tap on its button counts as a hit,
but the callback is not called.
-/

namespace ContentCard

/-! ## 1. Texts that end with a zero -/

theorem zero_not_mem_utf8EncodeChar {c : Char} (h : c ≠ '\x00') :
    0 ∉ String.utf8EncodeChar c := by
  have hc : c.toNat ≠ 0 := fun he => h (Char.toNat_inj.mp he)
  have hv : c.val.toNat = c.toNat := rfl
  unfold String.utf8EncodeChar
  simp only [hv]
  intro hm
  -- one byte is the character itself; in several bytes each one is marked as a part
  split at hm
  · simp [← UInt8.toNat_inj] at hm
    omega
  split at hm
  · simp [← UInt8.toNat_inj] at hm
    omega
  split at hm
  · simp [← UInt8.toNat_inj] at hm
    omega
  · simp [← UInt8.toNat_inj] at hm
    omega

namespace EmbeddedSession

/-- The bytes of a text as a host gets them. -/
def zeroEnded (s : String) : List UInt8 := s.toUTF8.data.toList ++ [0]

theorem hasZero_eq_false_iff {s : String} : hasZero s = false ↔ '\x00' ∉ s.toList := by
  rw [hasZero, ← Bool.not_eq_true, List.contains_iff_mem]

/-- A text without a zero in it is read back as it is. -/
theorem readText_zeroEnded {s : String} (h : hasZero s = false) :
    readText (some (zeroEnded s)) = some s := by
  have hbytes : s.toUTF8.data.toList = s.toList.flatMap String.utf8EncodeChar := by
    rw [String.toUTF8, ← String.utf8Encode_toList, List.utf8Encode, List.data_toByteArray]
  have hzero : ∀ b ∈ s.toUTF8.data.toList, (b != 0) = true := by
    intro b hb
    rw [hbytes] at hb
    obtain ⟨c, hc, hb⟩ := List.mem_flatMap.mp hb
    rw [bne_iff_ne]
    rintro rfl
    refine zero_not_mem_utf8EncodeChar ?_ hb
    rintro rfl
    exact hasZero_eq_false_iff.mp h hc
  rw [readText, zeroEnded, Option.bind_some, List.takeWhile_append_of_pos hzero]
  show String.fromUTF8? ⟨(s.toUTF8.data.toList ++ []).toArray⟩ = some s
  rw [List.append_nil, Array.toArray_toList, String.fromUTF8?]
  exact dif_pos s.isValidUTF8

end EmbeddedSession

/-! ## 2. The addresses of buttons -/

namespace Visual

variable {s : Surroundings} {parent : Direction} {n : Node} {action : TapAction}

theorem action_of_ofNode (h : (ofNode s parent n).action? = some action) :
    action = ⟨n.data.interactionId.getD "", n.data.actionUrl.bind readAddress⟩ := by
  obtain ⟨data, children⟩ := n
  rw [ofNode] at h
  cases hd : data.type with
  | button =>
    rw [hd] at h
    exact (Option.some.inj h).symm
  | view | text | image | unknown =>
    rw [hd] at h
    cases h

/-- What a tap on a card is for comes from a button's node. -/
theorem exists_node_of_tapAction? {room : Available} {p : Point}
    (h : (ofNode s parent n).tapAction? p ((ofNode s parent n).placement room s.measure) =
      some action) :
    ∃ data : NodeData,
      action = ⟨data.interactionId.getD "", data.actionUrl.bind readAddress⟩ := by
  obtain ⟨before, w, after, hvisits, -, haction, -⟩ := tapAction?_eq_some_iff.mp h
  have hw : w ∈ before ++ w :: after := List.mem_append_right _ List.mem_cons_self
  rw [← hvisits] at hw
  obtain ⟨path, hpath⟩ := exists_descend_of_mem_visits hw
  obtain ⟨parent', m, hnode⟩ := exists_node_of_descend s parent hpath
  rw [hnode] at haction
  exact ⟨m.data, action_of_ofNode haction⟩

end Visual

theorem hasZero_text_of_readAddress {text : String} {a : Web.Address}
    (h : readAddress text = some a) : EmbeddedSession.hasZero a.text = false := by
  rw [EmbeddedSession.hasZero_eq_false_iff]
  intro hz
  have hplain := Web.Address.isPlain_text_of_parse? h _ hz
  exact absurd hplain (by decide)

/-! ## 3. Taps -/

namespace EmbeddedSession

theorem tap_eq (s : EmbeddedSession) (card : Card) (hr : s.rendered = some card)
    (hh : s.handler = some ()) (p : Point) :
    tap s p =
      match card.tapAction? p with
      | some action => (true, (call? action).toList)
      | none => (false, []) := by
  rw [tap, Session.tap, hr, hh]
  simp only [Card.tap, Visual.tap, Card.tapAction?]
  cases card.tree.tapAction? p card.layout <;> rfl

/-- Whatever a session was opened with and rendered to: with a callback set, a tap answers whether
there is a button under the point.  The callback is then called once, with the button's identifier
and its address, if it has one, and the host reads both as they are; but it is not called if the
identifier has a zero in it, nor without a button. -/
theorem tap_calls_back (s : EmbeddedSession) (images : ImageSource) (width height : Float32)
    (p : Point) :
    let shown := Session.setHandler (Session.render s images (room width height)) ()
    match (Session.card s images (room width height)).tapAction? p with
    | none => tap shown p = (false, [])
    | some ⟨id, url⟩ =>
      if hasZero id then tap shown p = (true, [])
      else
        tap shown p = (true, [⟨id, url.map (·.text)⟩]) ∧
          readText (some (zeroEnded id)) = some id ∧
          (url.map (·.text)).bind (fun text => readText (some (zeroEnded text))) =
            url.map (·.text) := by
  intro shown
  have htap := tap_eq shown (Session.card s images (room width height)) rfl rfl p
  cases haction : (Session.card s images (room width height)).tapAction? p with
  | none =>
    rw [haction] at htap
    exact htap
  | some action =>
    obtain ⟨id, url⟩ := action
    rw [haction] at htap
    dsimp only at htap
    obtain ⟨data, hdata⟩ := Visual.exists_node_of_tapAction? haction
    -- an address is always readable, so the filter for zeros drops none
    have hurl : ∀ address ∈ url, hasZero address.text = false := by
      intro address ha
      rw [(TapAction.mk.inj hdata).2] at ha
      obtain ⟨text, -, hread⟩ := Option.bind_eq_some_iff.mp ha
      exact hasZero_text_of_readAddress hread
    have hfilter : (url.map (·.text)).filter (!hasZero ·) = url.map (·.text) := by
      cases url with
      | none => rfl
      | some address =>
        rw [Option.map_some, Option.filter_some_pos]
        rw [hurl address rfl]
        rfl
    show if hasZero id then _ else _
    split
    · rename_i hid
      rw [htap, call?, if_pos hid]
      rfl
    · rename_i hid
      refine ⟨?_, readText_zeroEnded (Bool.not_eq_true _ ▸ hid), ?_⟩
      · rw [htap, call?, if_neg hid, hfilter]
        rfl
      · cases url with
        | none => rfl
        | some address => exact readText_zeroEnded (hurl address rfl)

/-- A button whose identifier has a zero in it. -/
def zeroPayload : List UInt8 :=
  "\x7b\"type\":\"button\",\"label\":\"Buy\",\"interactionId\":\"a\\u0000b\"\x7d".toUTF8.data.toList

/-- A tap on it is a hit that the callback is not told of. -/
theorem not_forall_hit_calls_back :
    ¬ ∀ (payload config : Option (List UInt8)) (s : EmbeddedSession) (images : ImageSource)
      (width height : Float32) (p : Point), open? payload config = some s →
      let shown := Session.setHandler (Session.render s images (room width height)) ()
      ((tap shown p).1 = true ↔ (tap shown p).2.length = 1) ∧
        ((tap shown p).1 = false ↔ (tap shown p).2 = []) := by
  intro h
  have hopen : (open? (some zeroPayload) none).isSome := by decide +kernel
  obtain ⟨s, hs⟩ := Option.isSome_iff_exists.mp hopen
  have htap : (open? (some zeroPayload) none).map (fun s =>
      tap (Session.setHandler (Session.render s (fun _ => .pending) (room 375 0)) ()) ⟨5, 5⟩) =
      some (true, []) := by
    decide +kernel
  rw [hs, Option.map_some, Option.some.injEq] at htap
  have hiff := (h _ _ s (fun _ => .pending) 375 0 ⟨5, 5⟩ hs).1
  rw [htap] at hiff
  exact absurd (hiff.mp rfl) (by decide)

end EmbeddedSession

end ContentCard
