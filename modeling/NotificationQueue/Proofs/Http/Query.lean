import NotificationQueue.Http.Api
import NotificationQueue.Proofs.Text.Pieces
import NotificationQueue.Proofs.Text.Utf8
import NotificationQueue.Proofs.Uuid

/-!
Queries of plain texts. Pairs of names and values without special characters are read as they are
written, so that every type of event can be asked for, from behind every event.
-/
namespace NotificationQueue
set_option autoImplicit false

namespace Http

/-! ## Pairs -/

def IsPlain (s : String) : Prop :=
  ∀ c ∈ s.toList, c ≠ '%' ∧ c ≠ '+' ∧ c ≠ '&' ∧ c ≠ '='

instance (s : String) : Decidable (IsPlain s) :=
  List.decidableBAll _ _

theorem ofNat_ne_percent {n : Nat} (hlow : 0x80 ≤ n) (hhigh : n < 0x100) :
    UInt8.ofNat n ≠ 0x25 := by
  intro heq
  have hbyte : n = 0x25 := (UInt8.toNat_ofNat_of_lt' hhigh).symm.trans (congrArg UInt8.toNat heq)
  omega

theorem percent_of_mem_encodeChar {c : Char} (h : 0x25 ∈ Utf8.encodeChar c) : c = '%' := by
  have hvalid : c.toNat < 0x110000 := by
    have hc : c.toNat < 0xD800 ∨ 0xDFFF < c.toNat ∧ c.toNat < 0x110000 := c.valid
    omega
  have hmore {n : Nat} (hlow : 0x80 ≤ n) (hhigh : n < 0x100) (hn : 0x25 = UInt8.ofNat n) :
      c = '%' := absurd hn.symm (ofNat_ne_percent hlow hhigh)
  unfold Utf8.encodeChar at h
  dsimp only at h
  split at h
  · next hn =>
    have hbyte := congrArg UInt8.toNat (List.mem_singleton.1 h)
    rw [UInt8.toNat_ofNat_of_lt' (show c.toNat < 256 by omega)] at hbyte
    exact Char.toNat_inj.1 hbyte.symm
  · split at h
    · simp only [List.mem_cons, List.not_mem_nil, or_false] at h
      rcases h with h | h <;> exact hmore (by omega) (by omega) h
    · split at h
      · simp only [List.mem_cons, List.not_mem_nil, or_false] at h
        rcases h with h | h | h <;> exact hmore (by omega) (by omega) h
      · simp only [List.mem_cons, List.not_mem_nil, or_false] at h
        rcases h with h | h | h | h <;> exact hmore (by omega) (by omega) h

theorem percentDecode_of_notMem {bytes : List UInt8} (h : 0x25 ∉ bytes) :
    percentDecode bytes = bytes := by
  induction bytes using percentDecode.induct with
  | case1 => rw [percentDecode]
  | case2 a b rest high low hhigh hlow ih => exact absurd List.mem_cons_self h
  | case3 a b rest hnot ih => exact absurd List.mem_cons_self h
  | case4 byte rest hnot ih =>
    rw [percentDecode, ih fun hmem => h (List.mem_cons_of_mem byte hmem)]
    exact hnot

theorem formText_of_isPlain {s : String} (h : IsPlain s) : formText s.toList = s := by
  have hplus : (s.toList.map fun c => if c = '+' then ' ' else c) = s.toList := by
    refine (List.map_congr_left fun c hc => if_neg (h c hc).2.1).trans (List.map_id _)
  have hpercent : 0x25 ∉ Utf8.encode s.toList := by
    intro hmem
    obtain ⟨c, hc, hbyte⟩ := List.mem_flatMap.1 hmem
    exact (h c hc).1 (percent_of_mem_encodeChar hbyte)
  rw [formText, hplus, percentDecode_of_notMem hpercent, Utf8.decodeLossy, Utf8.decode_encode,
    List.map_map]
  exact (congrArg String.ofList (List.map_id _)).trans String.ofList_toList

def writePairs (pairs : List (String × String)) : String :=
  String.ofList (['&'].intercalate (pairs.map fun p => p.1.toList ++ '=' :: p.2.toList))

theorem formPairs_writePairs (pairs : List (String × String))
    (h : ∀ p ∈ pairs, IsPlain p.1 ∧ IsPlain p.2) : formPairs (writePairs pairs) = pairs := by
  have hpieces : ((Text.splitAll '&' (writePairs pairs).toList).filter (· ≠ [])) =
      pairs.map fun p => p.1.toList ++ '=' :: p.2.toList := by
    rw [writePairs, String.toList_ofList, Text.splitAll_eq_splitOn]
    by_cases hne : pairs = []
    · subst hne
      rfl
    · rw [List.splitOn_intercalate '&' ?_ fun heq => hne (List.map_eq_nil_iff.1 heq)]
      · refine List.filter_eq_self.2 fun piece hpiece => ?_
        obtain ⟨p, -, rfl⟩ := List.mem_map.1 hpiece
        simp
      · intro piece hpiece hmem
        obtain ⟨p, hp, rfl⟩ := List.mem_map.1 hpiece
        rcases List.mem_append.1 hmem with hmem | hmem
        · exact ((h p hp).1 _ hmem).2.2.1 rfl
        · rcases List.mem_cons.1 hmem with heq | hmem
          · cases heq
          · exact ((h p hp).2 _ hmem).2.2.1 rfl
  rw [formPairs, hpieces, List.map_map]
  refine (List.map_congr_left fun p hp => ?_).trans (List.map_id _)
  rw [Function.comp_apply, Text.splitFirst_append fun hmem => ((h p hp).1 _ hmem).2.2.2 rfl]
  dsimp only
  rw [formText_of_isPlain (h p hp).1, formText_of_isPlain (h p hp).2]
  rfl

/-! ## Asking for a type -/

def askFor (type : EventType) (cursor : Option String) : Request where
  method := "GET"
  uri :=
    { path := Route.path .pollEvents
      query := some (writePairs (("eventType", type.name) ::
        cursor.toList.map fun id => ("lastEventId", id))) }
  headers := []
  body := []

theorem readParameters_askFor (type : EventType) {cursor : Option String}
    (h : ∀ id ∈ cursor, IsPlain id) :
    readParameters true (askFor type cursor) = .ok ⟨some type.name, cursor, false⟩ := by
  have hname : IsPlain type.name := by cases type <;> decide +kernel
  have htyped : IsPlain "eventType" := by decide +kernel
  have hbehind : IsPlain "lastEventId" := by decide +kernel
  have hpairs := formPairs_writePairs (("eventType", type.name) ::
    cursor.toList.map fun id => ("lastEventId", id)) (by
      simp only [List.forall_mem_cons, List.forall_mem_map, Option.mem_toList]
      exact ⟨⟨htyped, hname⟩, fun id hid => ⟨hbehind, h id hid⟩⟩)
  have hread : PollParameters.read? true (askFor type cursor).uri.query =
      some ⟨some type.name, cursor, false⟩ := by
    simp only [PollParameters.read?, askFor, Option.getD_some, hpairs]
    cases cursor <;> rfl
  rw [readParameters, hread]

theorem readType_name (type : EventType) : readType (some type.name) = .ok (some type) := by
  have hname : type.name ≠ "" := by cases type <;> decide
  have hcursor : cursorOf (some type.name) = some type.name := by
    simp [cursorOf, Option.filter, hname]
  rw [readType, hcursor]
  dsimp only
  rw [EventType.named?_name]

theorem eventsPoll_askFor {c : Caller} (type : EventType) {cursor : Option String}
    (h : ∀ id ∈ cursor, IsPlain id)
    (hallowed : (Subject.forType type (some c.id)).isAdmin = true → c.isAdmin = true) :
    eventsPoll c (askFor type cursor) = .ok
      { subject := .forType type (some c.id), type := some type, lastEventId := cursor } := by
  have hgranted : ¬ ((Subject.forType type (some c.id)).isAdmin = true ∧ ¬ c.isAdmin = true) :=
    fun hdenied => hdenied.2 (hallowed hdenied.1)
  rw [eventsPoll, readParameters_askFor type h]
  change (readType (some type.name) >>= _) = _
  rw [readType_name]
  change (if _ then _ else _) = _
  exact if_neg hgranted

end Http

theorem Uuid.mem_hyphenated {cs : List Char} {c : Char} (h : c ∈ hyphenated cs) :
    c = '-' ∨ c ∈ cs := by
  simp only [hyphenated, List.mem_append, List.mem_cons] at h
  grind [List.mem_of_mem_take, List.mem_of_mem_drop]

theorem Uuid.isPlain_write {id : Uuid} (h : id.IsWellFormed) : Http.IsPlain id.write := by
  have hdigit : ∀ m : Fin 16, Text.hexDigit m ≠ '%' ∧ Text.hexDigit m ≠ '+' ∧
      Text.hexDigit m ≠ '&' ∧ Text.hexDigit m ≠ '=' := by decide
  intro c hc
  rw [write, String.toList_ofList] at hc
  rcases mem_hyphenated hc with rfl | hc
  · decide
  · obtain ⟨d, hd, rfl⟩ := List.mem_map.1 hc
    exact hdigit ⟨d, h.2 d hd⟩

end NotificationQueue
