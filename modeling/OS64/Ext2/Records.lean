import OS64.Ext2.Regions

/-!
# Directory blocks

A directory block is a sequence of records, end to end from its first byte to its
last (`OS64.Ext2.Segment`). Each has the number of an inode, a length that leaves
room for its name, the name, and a byte for the kind of the inode. What matters of
it is the list of the entries (`OS64.Ext2.Listing`), a name with an inode and a
kind: the search of `dir_find` finds what is in the list, a record put behind
another one adds an entry, and a record whose space is given to the one before it
takes one away.
-/

namespace OS64.Ext2

open List Function ByteMem

variable {name : Path} {ino p : ℕ}

/-- An entry: the name, the inode and its kind, 1 for a file and 2 for a directory. -/
structure Entry where
  name : Path
  ino : ℕ
  kind : UInt8

/-- A record: an entry and the length. -/
structure Rec extends Entry where
  len : ℕ

variable {r : Rec}

/-- The bytes of a record. -/
structure RecordAt (b : ByteMem) (p : ℕ) (r : Rec) : Prop where
  ino : r32 b p = r.ino
  len : r16 b (p + 4) = r.len
  nameLength : (b (p + 6)).toNat = r.name.length
  name : bytes b (p + 8) r.name.length = r.name
  kind : b (p + 7) = r.kind
  ino_ne : r.ino ≠ 0
  fits : ideal r.name.length ≤ r.len

theorem le_ideal (n : ℕ) : n + 8 ≤ ideal n := by
  rw [ideal]
  omega

theorem RecordAt.le_len {b : ByteMem} (h : RecordAt b p r) : r.name.length + 8 ≤ r.len := (le_ideal _).trans h.fits

/-- A record survives any change outside its used part. -/
theorem RecordAt.congr {b b' : ByteMem} (h : RecordAt b p r)
    (hb : ∀ x, p ≤ x → x < p + 8 + r.name.length → b' x = b x) : RecordAt b' p r where
  ino := (readLE_congr fun x hx hx' => hb x hx (by omega)).trans h.ino
  len := (readLE_congr fun x hx hx' => hb x (by omega) (by omega)).trans h.len
  nameLength := by rw [hb (p + 6) (by omega) (by omega), h.nameLength]
  name := (bytes_congr fun x hx hx' => hb x (by omega) (by omega)).trans h.name
  kind := by rw [hb (p + 7) (by omega) (by omega), h.kind]
  ino_ne := h.ino_ne
  fits := h.fits

/-- The records `rs` lie end to end from `p` to `q`. -/
def Segment (b : ByteMem) : ℕ → List Rec → ℕ → Prop
  | p, [], q => p = q
  | p, r :: rs, q => RecordAt b p r ∧ Segment b (p + r.len) rs q

theorem segment_append {b : ByteMem} : ∀ {xs ys : List Rec} {p q : ℕ},
    Segment b p (xs ++ ys) q ↔ ∃ m, Segment b p xs m ∧ Segment b m ys q
  | [], ys, p, q => by simp [Segment]
  | x :: xs, ys, p, q => by
    rw [cons_append, Segment, segment_append]
    simp only [Segment]
    constructor
    · rintro ⟨hx, m, hxs, hys⟩
      exact ⟨m, ⟨hx, hxs⟩, hys⟩
    · rintro ⟨m, ⟨hx, hxs⟩, hys⟩
      exact ⟨hx, m, hxs, hys⟩

theorem Segment.le {b : ByteMem} : ∀ {rs : List Rec} {p q : ℕ}, Segment b p rs q → p ≤ q
  | [], p, q, h => le_of_eq h
  | r :: rs, p, q, ⟨_, h⟩ => by
    have := h.le
    omega

theorem Segment.congr {b b' : ByteMem} : ∀ {rs : List Rec} {p q : ℕ}, Segment b p rs q →
    (∀ x, p ≤ x → x < q → b' x = b x) → Segment b' p rs q
  | [], p, q, h, _ => h
  | r :: rs, p, q, ⟨hr, hrs⟩, hb => by
    have hle := hrs.le
    have hlen := hr.le_len
    exact ⟨hr.congr fun x hx hx' => hb x hx (by omega), hrs.congr fun x hx hx' => hb x (by omega) hx'⟩

/-! ### Searching -/

/-- The positions of the records of a segment. -/
def starts : ℕ → List Rec → List ℕ
  | _, [] => []
  | p, r :: rs => p :: starts (p + r.len) rs

/-- The loop over the records meets all of them, and ends with the block. -/
theorem Segment.positions {b : ByteMem} : ∀ {rs : List Rec} {p : ℕ} (fuel : ℕ),
    Segment b p rs 4096 → 4096 - p ≤ 8 * fuel → positions b fuel p = starts p rs
  | [], p, fuel, h, _ => by
    obtain rfl : p = 4096 := h
    cases fuel with
    | zero => rfl
    | succ fuel => rfl
  | r :: rs, p, fuel, ⟨hr, hrs⟩, hfuel => by
    have hle := hrs.le
    have hlen := hr.le_len
    cases fuel with
    | zero => omega
    | succ fuel =>
      rw [Ext2.positions, if_pos (by omega), hr.len, if_neg (by omega), starts, hrs.positions fuel (by omega)]

theorem RecordAt.isNamed {b : ByteMem} (h : RecordAt b p r) (name : Path) :
    isNamed b name p = decide (r.name = name) := by
  rw [Ext2.isNamed, h.ino, h.nameLength, decide_eq_decide]
  constructor
  · rintro ⟨-, hlength, hbytes⟩
    rw [← hbytes, ← hlength, h.name]
  · rintro rfl
    exact ⟨h.ino_ne, rfl, h.name⟩

/-- The entries of some records. -/
def entries (rs : List Rec) : List Entry := rs.map Rec.toEntry

theorem Segment.find_isNamed {b : ByteMem} (name : Path) : ∀ {rs : List Rec} {p : ℕ},
    Segment b p rs 4096 → ((starts p rs).find? (isNamed b name)).map (r32 b) =
      ((entries rs).find? fun e => e.name = name).map Entry.ino
  | [], p, _ => rfl
  | r :: rs, p, ⟨hr, hrs⟩ => by
    rw [starts, entries, map_cons, find?_cons, find?_cons, hr.isNamed]
    by_cases hname : r.name = name
    · simp only [hname, decide_true, Option.map_some, hr.ino]
    · simp only [hname, decide_false]
      exact hrs.find_isNamed name

/-- A position that a search over the records finds is that of a record. -/
theorem Segment.of_find {b : ByteMem} {f : ℕ → Bool} : ∀ {rs : List Rec} {p x : ℕ},
    Segment b p rs 4096 → (starts p rs).find? f = some x →
    ∃ pre r post, rs = pre ++ r :: post ∧ Segment b p pre x ∧ RecordAt b x r ∧
      Segment b (x + r.len) post 4096 ∧ f x = true
  | [], p, x, _, hfind => by simp [starts] at hfind
  | r :: rs, p, x, ⟨hr, hrs⟩, hfind => by
    rw [starts, find?_cons] at hfind
    split at hfind
    · rename_i hf
      obtain rfl := Option.some.inj hfind
      exact ⟨[], r, rs, rfl, rfl, hr, hrs, hf⟩
    · obtain ⟨pre, r', post, rfl, hpre, hr', hpost, hf⟩ := hrs.of_find hfind
      exact ⟨r :: pre, r', post, rfl, ⟨hr, hpre⟩, hr', hpost, hf⟩

/-! ### Listings -/

/-- The entries of a directory block, whose first one is `.`. -/
structure Listing (b : ByteMem) (es : List Entry) : Prop where
  records : ∃ rs, Segment b 0 rs 4096 ∧ entries rs = es
  nodup : (es.map Entry.name).Nodup
  first : ∃ e rest, es = e :: rest ∧ e.name = [46]

variable {b : ByteMem} {es : List Entry}

/-- Entries of one name are the same. -/
theorem Listing.eq_of_name (h : Listing b es) {e e' : Entry} (he : e ∈ es) (he' : e' ∈ es)
    (hname : e.name = e'.name) : e = e' :=
  inj_on_of_nodup_map h.nodup he he' hname

/-- **`dir_find`** finds the entries of the listing. -/
theorem Listing.dirSearch (h : Listing b es) : dirSearch b name = some ino ↔ ∃ e ∈ es, e.name = name ∧ e.ino = ino := by
  have hsearch : Ext2.dirSearch b name = (es.find? fun e => e.name = name).map Entry.ino := by
    obtain ⟨rs, hseg, rfl⟩ := h.records
    rw [Ext2.dirSearch, hseg.positions 512 (by decide), hseg.find_isNamed name]
  rw [hsearch]
  constructor
  · intro hfind
    obtain ⟨e, hfind', hino⟩ := Option.map_eq_some_iff.mp hfind
    exact ⟨e, mem_of_find?_eq_some hfind', by simpa using find?_some hfind', hino⟩
  · rintro ⟨e, hmem, hname, hino⟩
    cases hfind : es.find? fun e => e.name = name with
    | none =>
      have hno := find?_eq_none.mp hfind _ hmem
      simp [hname] at hno
    | some e' =>
      have hname' : e'.name = name := by simpa using find?_some hfind
      rw [h.eq_of_name (mem_of_find?_eq_some hfind) hmem (hname'.trans hname.symm), Option.map_some, hino]

theorem Listing.clip (h : Listing b es) : Listing (clip b) es := by
  obtain ⟨rs, hseg, hes⟩ := h.records
  exact ⟨⟨rs, hseg.congr fun x _ hx => clip_apply b hx, hes⟩, h.nodup, h.first⟩

/-- An element behind another one, brought to the front. -/
theorem perm_behind {α : Type*} (xs ys : List α) (x y : α) : (xs ++ x :: y :: ys).Perm (y :: (xs ++ x :: ys)) := by
  have hmiddle := @perm_middle _ y (xs ++ [x]) ys
  simpa only [append_assoc, singleton_append] using hmiddle

/-! ### Adding an entry -/

/-- A record put behind the one at `p` leaves the rest of the block alone. -/
theorem addRecord_of_notMem {type : UInt8} {x : ℕ}
    (hused : 8 ≤ ideal (b (p + 6)).toNat)
    (hx : x < p + 4 ∨ (p + 6 ≤ x ∧ x < p + ideal (b (p + 6)).toNat) ∨
      p + ideal (b (p + 6)).toNat + 8 + name.length ≤ x) :
    addRecord b p name ino type x = b x := by
  simp only [addRecord, w8, w16, w32]
  rw [store_of_notMem _ (by omega), update_of_ne (by omega), update_of_ne (by omega),
    writeLE_of_notMem _ (by omega), writeLE_of_notMem _ (by omega), writeLE_of_notMem _ (by omega)]

/-- A byte that is written beside a word. -/
theorem readLE_update_of_disjoint (m : ByteMem) {a b j : ℕ} {v : UInt8} (h : b + j ≤ a ∨ a + 1 ≤ b) :
    readLE (update m a v) j b = readLE m j b :=
  readLE_congr fun x hx hx' => update_of_ne (by omega) _ _

/-- A string that is written beside a word. -/
theorem readLE_store_of_disjoint (m : ByteMem) {a b j : ℕ} {l : List UInt8} (h : b + j ≤ a ∨ a + l.length ≤ b) :
    readLE (store m a l) j b = readLE m j b :=
  readLE_congr fun x hx hx' => store_of_notMem _ (by omega)

/-- The record before keeps its name, and what it does not use goes to the new
one. -/
theorem RecordAt.addRecord (h : RecordAt b p r)
    (type : UInt8) (hname : name.length ≤ 255) (hino : ino ≠ 0) (hino' : ino < 2 ^ 32)
    (hroom : ideal r.name.length + ideal name.length ≤ r.len) (hlen : r.len ≤ 4096) :
    RecordAt (addRecord b p name ino type) p ⟨r.toEntry, ideal r.name.length⟩ ∧
    RecordAt (addRecord b p name ino type) (p + ideal r.name.length)
      ⟨⟨name, ino, type⟩, r.len - ideal r.name.length⟩ := by
  have hle := le_ideal r.name.length
  have hsame : ∀ x, (x < p + 4 ∨ (p + 6 ≤ x ∧ x < p + ideal r.name.length)) →
      Ext2.addRecord b p name ino type x = b x := by
    intro x hx
    exact addRecord_of_notMem (by rw [h.nameLength]; omega) (by rw [h.nameLength]; omega)
  -- the bytes of the new record, behind those of the old one
  have hbytes : Ext2.addRecord b p name ino type =
      store (w8 (w8 (w16 (w32 (w16 b (p + 4) (ideal r.name.length)) (p + ideal r.name.length) ino)
        (p + ideal r.name.length + 4) (r.len - ideal r.name.length)) (p + ideal r.name.length + 6)
        (UInt8.ofNat name.length)) (p + ideal r.name.length + 7) type)
        (p + ideal r.name.length + 8) name := by
    simp only [Ext2.addRecord, h.len, h.nameLength]
  constructor
  · refine ⟨?_, ?_, ?_, ?_, ?_, h.ino_ne, le_rfl⟩
    · exact (readLE_congr fun x hx hx' => hsame x (by omega)).trans h.ino
    · rw [hbytes]
      simp (disch := omega) only [r16, w8, w16, w32, readLE_store_of_disjoint, readLE_update_of_disjoint,
        readLE_writeLE_of_disjoint, readLE_writeLE_of_lt]
    · rw [hsame _ (by omega), h.nameLength]
    · refine (bytes_congr fun x hx hx' => hsame x ?_).trans h.name
      have hx'' : x < p + 8 + r.name.length := hx'
      omega
    · rw [hsame _ (by omega), h.kind]
  · generalize p + ideal r.name.length = q at hbytes ⊢
    refine ⟨?_, ?_, ?_, ?_, ?_, hino, by change ideal name.length ≤ r.len - ideal r.name.length; omega⟩
    · rw [hbytes]
      simp (disch := omega) only [r32, w8, w16, w32, readLE_store_of_disjoint, readLE_update_of_disjoint,
        readLE_writeLE_of_disjoint, readLE_writeLE_of_lt]
    · rw [hbytes]
      simp (disch := omega) only [r16, w8, w16, w32, readLE_store_of_disjoint, readLE_update_of_disjoint,
        readLE_writeLE_of_lt]
    · rw [hbytes, store_of_notMem _ (by omega), w8, update_of_ne (by omega), w8, update_self, UInt8.toNat_ofNat']
      exact Nat.mod_eq_of_lt (by omega)
    · rw [hbytes]
      exact bytes_store _ _ name
    · rw [hbytes, store_of_notMem _ (by omega), w8, update_self]

/-- **`dir_add`** puts the new record behind one that leaves room for it. -/
theorem Segment.addRecord {rs : List Rec} (h : Segment b 0 rs 4096) (type : UInt8)
    (hname : name.length ≤ 255) (hino : ino ≠ 0) (hino' : ino < 2 ^ 32)
    (hfind : (Ext2.positions b 512 0).find? (hasRoom b (ideal name.length)) = some p) :
    ∃ pre r post, rs = pre ++ r :: post ∧ Segment (Ext2.addRecord b p name ino type) 0
      (pre ++ ⟨r.toEntry, ideal r.name.length⟩ :: ⟨⟨name, ino, type⟩, r.len - ideal r.name.length⟩ :: post) 4096 := by
  rw [h.positions 512 (by decide)] at hfind
  obtain ⟨pre, r, post, rfl, hpre, hr, hpost, hroom⟩ := h.of_find hfind
  have hroom' : ideal r.name.length + ideal name.length ≤ r.len := by
    have hroom := of_decide_eq_true hroom
    rw [hr.len, hr.nameLength] at hroom
    exact hroom.2
  have hle := le_ideal r.name.length
  have hle' := le_ideal name.length
  have hend := hpost.le
  obtain ⟨hr', hnewRec⟩ := hr.addRecord type hname hino hino' hroom' (by omega)
  have hsame : ∀ x, (x < p ∨ p + r.len ≤ x) → Ext2.addRecord b p name ino type x = b x := by
    intro x hx
    refine addRecord_of_notMem (by rw [hr.nameLength]; omega) ?_
    rw [hr.nameLength]
    omega
  refine ⟨pre, r, post, rfl, segment_append.mpr ⟨p, hpre.congr fun x _ hx => hsame x (.inl hx), hr', hnewRec, ?_⟩⟩
  rw [show p + ideal r.name.length + (r.len - ideal r.name.length) = p + r.len by omega]
  exact hpost.congr fun x hx _ => hsame x (.inr hx)

/-- **`dir_add`** adds an entry to the listing. -/
theorem Listing.addRecord (h : Listing b es) (type : UInt8)
    (hname : name.length ≤ 255) (hino : ino ≠ 0) (hino' : ino < 2 ^ 32) (hnew : ∀ e ∈ es, e.name ≠ name)
    (hfind : (Ext2.positions b 512 0).find? (hasRoom b (ideal name.length)) = some p) :
    ∃ es', Listing (addRecord b p name ino type) es' ∧ ∀ e, e ∈ es' ↔ e ∈ es ∨ e = ⟨name, ino, type⟩ := by
  obtain ⟨rs, hseg, rfl⟩ := h.records
  obtain ⟨pre, r, post, rfl, hseg'⟩ := hseg.addRecord type hname hino hino' hfind
  -- up to the order the new entry is the first one
  have hperm : (entries (pre ++ ⟨r.toEntry, ideal r.name.length⟩ ::
      ⟨⟨name, ino, type⟩, r.len - ideal r.name.length⟩ :: post)).Perm
      (⟨name, ino, type⟩ :: entries (pre ++ r :: post)) := by
    simp only [entries, map_append, map_cons]
    exact perm_behind _ _ _ _
  refine ⟨_, ⟨⟨_, hseg', rfl⟩, ?_, ?_⟩, fun e => ?_⟩
  · rw [(hperm.map Entry.name).nodup_iff, map_cons, nodup_cons]
    refine ⟨fun hmem => ?_, h.nodup⟩
    obtain ⟨e, hmem', hname'⟩ := mem_map.mp hmem
    exact hnew e hmem' hname'
  · obtain ⟨e, rest, hes, hdot⟩ := h.first
    cases pre with
    | nil =>
      obtain ⟨hhead, -⟩ := cons.inj hes
      exact ⟨e, _, by rw [entries, nil_append, map_cons, ← hhead], hdot⟩
    | cons r₀ pre =>
      obtain ⟨hhead, -⟩ := cons.inj hes
      exact ⟨e, _, by rw [entries, cons_append, map_cons, ← hhead], hdot⟩
  · rw [hperm.mem_iff, mem_cons, or_comm]

/-! ### Room for more entries -/

/-- One of the records is followed by `n` bytes that it does not use. -/
def Roomy (b : ByteMem) (n : ℕ) : Prop := ∃ rs, Segment b 0 rs 4096 ∧ ∃ r ∈ rs, ideal r.name.length + n ≤ r.len

theorem Roomy.mono {m n : ℕ} (h : Roomy b n) (hle : m ≤ n) : Roomy b m := by
  obtain ⟨rs, hseg, r, hr, hlen⟩ := h
  exact ⟨rs, hseg, r, hr, by omega⟩

theorem Segment.mem_starts {b : ByteMem} {post : List Rec} : ∀ {pre : List Rec} {p x : ℕ},
    Segment b p pre x → x ∈ starts p (pre ++ r :: post)
  | [], p, x, h => by
    obtain rfl : p = x := h
    exact mem_cons_self
  | _ :: _, _, _, ⟨_, hpre⟩ => mem_cons_of_mem _ hpre.mem_starts

theorem Roomy.find {n : ℕ} (h : Roomy b n) : ∃ p, (Ext2.positions b 512 0).find? (hasRoom b n) = some p := by
  obtain ⟨rs, hseg, r, hr, hlen⟩ := h
  obtain ⟨pre, post, rfl⟩ := append_of_mem hr
  obtain ⟨x, hpre, hat, -⟩ := segment_append.mp hseg
  rw [hseg.positions 512 (by decide), ← Option.isSome_iff_exists, find?_isSome]
  refine ⟨x, hpre.mem_starts, decide_eq_true ?_⟩
  rw [hat.ino, hat.len, hat.nameLength]
  exact ⟨hat.ino_ne, hlen⟩

/-- A new record takes its own length, wherever it is put. -/
theorem Roomy.addRecord {n : ℕ} (h : Roomy b (ideal name.length + n)) (type : UInt8)
    (hname : name.length ≤ 255) (hino : ino ≠ 0) (hino' : ino < 2 ^ 32)
    (hfind : (Ext2.positions b 512 0).find? (hasRoom b (ideal name.length)) = some p) :
    Roomy (clip (Ext2.addRecord b p name ino type)) n := by
  obtain ⟨rs, hseg, r, hr, hlen⟩ := h
  obtain ⟨pre, r', post, rfl, hseg'⟩ := hseg.addRecord type hname hino hino' hfind
  refine ⟨_, hseg'.congr fun x _ hx => clip_apply _ hx, ?_⟩
  rcases mem_append.mp hr with hpre | hrest
  · exact ⟨r, mem_append_left _ hpre, by omega⟩
  · rcases mem_cons.mp hrest with rfl | hpost
    · exact ⟨⟨⟨name, ino, type⟩, r.len - ideal r.name.length⟩, by simp,
        show ideal name.length + n ≤ r.len - ideal r.name.length by omega⟩
    · exact ⟨r, by simp [hpost], by omega⟩

/-! ### Removing an entry -/

/-- The search of `ext2_remove`, from behind the record `a`. -/
theorem Segment.removeSearch : ∀ {rs : List Rec} {a : Rec} {prev : ℕ} (fuel : ℕ),
    RecordAt b prev a → Segment b (prev + a.len) rs 4096 → (∃ r ∈ rs, r.ino = ino) →
    4096 - (prev + a.len) ≤ 8 * fuel →
    ∃ pre a' r post prev', a :: rs = pre ++ a' :: r :: post ∧ r.ino = ino ∧
      removeSearch b ino fuel (prev + a.len) prev = some (prev' + a'.len, prev') ∧
      Segment b prev pre prev' ∧ RecordAt b prev' a' ∧ RecordAt b (prev' + a'.len) r ∧
      Segment b (prev' + a'.len + r.len) post 4096
  | [], a, prev, fuel, _, _, ⟨r, hr, _⟩, _ => nomatch hr
  | r :: rs, a, prev, fuel, ha, ⟨hr, hrs⟩, hmem, hfuel => by
    have hle := hrs.le
    have hlen := hr.le_len
    cases fuel with
    | zero => omega
    | succ fuel =>
      rw [Ext2.removeSearch, if_pos (by omega), hr.ino]
      by_cases hino : r.ino = ino
      · rw [if_pos hino]
        exact ⟨[], a, r, rs, prev, rfl, hino, rfl, rfl, ha, hr, hrs⟩
      · have hmem' : ∃ r ∈ rs, r.ino = ino := by
          obtain ⟨r', hr', hino'⟩ := hmem
          rcases mem_cons.mp hr' with rfl | hr'
          · exact absurd hino' hino
          · exact ⟨r', hr', hino'⟩
        rw [if_neg hino, hr.len]
        obtain ⟨pre, a', r', post, prev', hsplit, hino', hsearch, hpre, ha', hr', hpost⟩ :=
          hrs.removeSearch fuel hr hmem' (by omega)
        exact ⟨a :: pre, a', r', post, prev', by rw [hsplit, cons_append], hino', hsearch, ⟨ha, hpre⟩, ha', hr', hpost⟩

/-- **`ext2_remove`** takes an entry off the listing, if no other has its inode. -/
theorem Listing.removeRecord (h : Listing b es) {e : Entry} (hmem : e ∈ es)
    (honly : ∀ e' ∈ es, e'.ino = e.ino → e' = e) (hdot : e.name ≠ [46]) :
    ∃ pos prev es', removeSearch b e.ino 4096 0 0 = some (pos, prev) ∧
      Listing (removeRecord b pos prev) es' ∧ ∀ e', e' ∈ es' ↔ e' ∈ es ∧ e' ≠ e := by
  obtain ⟨rs, hseg, rfl⟩ := h.records
  obtain ⟨e₀, rest, hfirst, hdot₀⟩ := h.first
  cases rs with
  | nil => exact absurd hfirst (by simp [entries])
  | cons a rs =>
    obtain ⟨ha, hrs⟩ := hseg
    obtain ⟨rfl, rfl⟩ := List.cons.inj hfirst
    -- the first record is not the one looked for
    have haino : a.ino ≠ e.ino := by
      intro haino
      have heq := honly a.toEntry mem_cons_self haino
      exact hdot (heq ▸ hdot₀)
    have hsome : ∃ r ∈ rs, r.ino = e.ino := by
      rcases mem_cons.mp hmem with heq | hmem
      · exact absurd (congrArg Entry.ino heq).symm haino
      · obtain ⟨r, hr, heq⟩ := mem_map.mp hmem
        exact ⟨r, hr, congrArg Entry.ino heq⟩
    obtain ⟨pre, a', r, post, prev, hsplit, hrino, hsearch, hpre, ha', hr, hpost⟩ :=
      hrs.removeSearch 4095 ha hsome (by omega)
    have hlena' := ha'.le_len
    have hend := hpost.le
    have hre : r.toEntry = e := by
      refine honly r.toEntry ?_ hrino
      rw [hsplit]
      exact mem_map_of_mem (by simp)
    have hrecord : Ext2.removeRecord b (prev + a'.len) prev = w16 b (prev + 4) (a'.len + r.len) := by
      rw [Ext2.removeRecord, if_pos (by omega), ha'.len, hr.len]
    have hsame : ∀ x, (x < prev + 4 ∨ prev + 6 ≤ x) →
        w16 b (prev + 4) (a'.len + r.len) x = b x := fun x hx => writeLE_of_notMem b (by omega)
    have ha'' : RecordAt (w16 b (prev + 4) (a'.len + r.len)) prev ⟨a'.toEntry, a'.len + r.len⟩ := by
      refine ⟨?_, ?_, ?_, ?_, ?_, ha'.ino_ne, ha'.fits.trans (Nat.le_add_right _ _)⟩
      · exact (readLE_congr fun x hx hx' => hsame x (by omega)).trans ha'.ino
      · exact readLE_writeLE_of_lt b (by omega)
      · rw [hsame _ (by omega), ha'.nameLength]
      · exact (bytes_congr fun x hx hx' => hsame x (by omega)).trans ha'.name
      · rw [hsame _ (by omega), ha'.kind]
    have hseg' : Segment (w16 b (prev + 4) (a'.len + r.len)) 0
        (pre ++ ⟨a'.toEntry, a'.len + r.len⟩ :: post) 4096 := by
      refine segment_append.mpr ⟨prev, hpre.congr fun x _ hx => hsame x (by omega), ha'', ?_⟩
      rw [← Nat.add_assoc]
      exact hpost.congr fun x hx _ => hsame x (by omega)
    have hes : entries (a :: rs) = entries pre ++ a'.toEntry :: e :: entries post := by
      rw [hsplit, ← hre]
      simp only [entries, map_append, map_cons]
    have hes' : entries (pre ++ ⟨a'.toEntry, a'.len + r.len⟩ :: post) = entries pre ++ a'.toEntry :: entries post := by
      simp only [entries, map_append, map_cons]
    have hperm := perm_behind (entries pre) (entries post) a'.toEntry e
    have hnodup := h.nodup
    rw [hes, (hperm.map Entry.name).nodup_iff, map_cons, nodup_cons, ← hes'] at hnodup
    refine ⟨prev + a'.len, prev, _, ?_, ⟨⟨_, hrecord ▸ hseg', rfl⟩, hnodup.2, ?_⟩, fun e' => ?_⟩
    · rw [Ext2.removeSearch, if_pos (by decide), ha.ino, if_neg haino, ha.len, hsearch]
    · rw [hes']
      cases pre with
      | nil =>
        obtain ⟨hhead', -⟩ := List.cons.inj (hes.symm.trans hfirst)
        exact ⟨a.toEntry, _, by rw [entries, map_nil, nil_append, hhead'], hdot₀⟩
      | cons r₀ pre =>
        obtain ⟨hhead', -⟩ := List.cons.inj (hes.symm.trans hfirst)
        exact ⟨a.toEntry, _, congrArg (· :: _) hhead', hdot₀⟩
    · rw [hes, hperm.mem_iff, ← hes', mem_cons]
      constructor
      · intro he
        refine ⟨Or.inr he, ?_⟩
        rintro rfl
        exact hnodup.1 (mem_map_of_mem he)
      · rintro ⟨rfl | he, hne⟩
        · exact absurd rfl hne
        · exact he

/-! ### A new directory -/

theorem segment_newDirectory {parent : ℕ} (hino : ino ≠ 0) (hino' : ino < 2 ^ 32)
    (hparent : parent ≠ 0) (hparent' : parent < 2 ^ 32) :
    Segment (newDirectory ino parent) 0 [⟨⟨[46], ino, 2⟩, 12⟩, ⟨⟨[46, 46], parent, 2⟩, 4084⟩] 4096 := by
  have hdot : RecordAt (newDirectory ino parent) 0 ⟨⟨[46], ino, 2⟩, 12⟩ := by
    refine ⟨?_, ?_, rfl, rfl, rfl, hino, show ideal 1 ≤ 12 by decide⟩
    · simp (disch := omega) only [newDirectory, r32, w8, w16, w32, readLE_update_of_disjoint,
        readLE_writeLE_of_disjoint, readLE_writeLE_of_lt]
    · simp (disch := omega) only [newDirectory, r16, w8, w16, w32, readLE_update_of_disjoint,
        readLE_writeLE_of_disjoint, readLE_writeLE_of_lt]
  have hdotdot : RecordAt (newDirectory ino parent) 12 ⟨⟨[46, 46], parent, 2⟩, 4084⟩ := by
    refine ⟨?_, ?_, rfl, rfl, rfl, hparent, show ideal 2 ≤ 4084 by decide⟩
    · simp (disch := omega) only [newDirectory, r32, w8, w16, w32, readLE_update_of_disjoint,
        readLE_writeLE_of_disjoint, readLE_writeLE_of_lt]
    · simp (disch := omega) only [newDirectory, r16, w8, w16, w32, readLE_update_of_disjoint, readLE_writeLE_of_lt]
  exact ⟨hdot, hdotdot, rfl⟩

/-- **A new directory** lists `.` and `..`. -/
theorem listing_newDirectory {parent : ℕ} (hino : ino ≠ 0) (hino' : ino < 2 ^ 32)
    (hparent : parent ≠ 0) (hparent' : parent < 2 ^ 32) :
    Listing (newDirectory ino parent) [⟨[46], ino, 2⟩, ⟨[46, 46], parent, 2⟩] :=
  ⟨⟨_, segment_newDirectory hino hino' hparent hparent', rfl⟩, by simp, _, _, rfl, rfl⟩

end OS64.Ext2
