import OS64.Packages.Decode

/-!
# Only what the catalog says is installed

Whatever the mirrors answer and whatever the buffers hold: if `package_install`
writes a file, its bytes are the base64 decoding of the body of one response, and
their digest is the one in the catalog (`package_install_delivered`). The bytes
that are checked and the bytes that are stored are the same part of the buffer,
and nothing of what was there before is among them.

The steps are taken one by one: `packageFetch` ends at a response
(`isResponse_of_fetch`), `packageDecode` follows the definition of base64
(`decodes_of_packageDecode`), and `packageHashValid` compares the digest as it is
written in the catalog (`hex_of_hashLoop`).
-/

namespace OS64.Packages

open List Auth Base64

/-! ### The digest -/

theorem hexDigit_nibble {c : UInt8} (h : isHex c = true) : nibble c < 16 ∧ hexDigit (nibble c) = c := by
  rw [isHex, decide_eq_true_eq] at h
  simp only [UInt8.le_iff_toNat_le, UInt8.reduceToNat] at h
  rw [nibble, hexDigit]
  simp only [UInt8.le_iff_toNat_le, UInt8.reduceToNat]
  rcases h with ⟨hlo, hhi⟩ | ⟨hlo, hhi⟩
  · rw [if_pos hhi, if_pos (by omega), show 48 + (c.toNat - 48) = c.toNat by omega, UInt8.ofNat_toNat]
    exact ⟨by omega, rfl⟩
  · rw [if_neg (by omega), if_neg (by omega), show 87 + (c.toNat - 97 + 10) = c.toNat by omega, UInt8.ofNat_toNat]
    exact ⟨by omega, rfl⟩

theorem hexPair_of_nibbles {a b : UInt8} (ha : isHex a = true) (hb : isHex b = true) :
    hexPair (UInt8.ofNat (nibble a <<< 4 ||| nibble b)) = [a, b] := by
  obtain ⟨halt, ha⟩ := hexDigit_nibble ha
  obtain ⟨hblt, hb⟩ := hexDigit_nibble hb
  have hor : nibble a <<< 4 ||| nibble b = 16 * nibble a + nibble b := by
    rw [← Nat.shiftLeft_add_eq_or_of_lt hblt, Nat.shiftLeft_eq, mul_comm]
  rw [hexPair, UInt8.toNat_ofNat', hor, Nat.mod_eq_of_lt (by omega),
    show (16 * nibble a + nibble b) / 16 = nibble a by omega,
    show (16 * nibble a + nibble b) % 16 = nibble b by omega, ha, hb]

/-- **The digest is the one in the catalog**, digit by digit. -/
theorem hex_of_hashLoop : ∀ {digest text : List UInt8}, 2 * digest.length = text.length →
    (∀ c ∈ text, isHex c = true) → hashLoop digest text = true → digest.flatMap hexPair = text
  | [], [], _, _, _ => rfl
  | d :: digest, a :: b :: text, hlen, hhex, h => by
    rw [hashLoop, Bool.and_eq_true, decide_eq_true_eq] at h
    obtain ⟨rfl, hrest⟩ := h
    rw [length_cons, length_cons, length_cons] at hlen
    rw [flatMap_cons, hexPair_of_nibbles (hhex a (by simp)) (hhex b (by simp)),
      hex_of_hashLoop (by omega) (fun c hc => hhex c (by simp [hc])) hrest]
    rfl
  | [], _ :: _, hlen, _, _ => nomatch hlen
  | _ :: _, [], hlen, _, _ => nomatch hlen
  | _ :: _, [_], hlen, _, _ => nomatch hlen

/-! ### Responses -/

/-- The body of a response with status 200: what follows the first empty line. -/
def IsResponse (data body : List UInt8) : Prop :=
  (ok11 <+: data ∨ ok10 <+: data) ∧ ∃ head, data = head ++ [13, 10, 13, 10] ++ body ∧
    ¬[13, 10, 13, 10] <:+: head ++ [13, 10, 13]

section

variable {http : ByteMem} {data : List UInt8} (hdata : http.bytes 0 data.length = data)

include hdata

/-- The zero behind the response keeps what was there before out of the comparison. -/
theorem isPrefix_of_startsBuffer (hzero : http data.length = 0) {p : List UInt8} (hp : (0 : UInt8) ∉ p)
    (h : startsBuffer http p = true) : p <+: data := by
  rw [startsBuffer, decide_eq_true_eq] at h
  rcases lt_or_ge data.length p.length with hlt | hle
  · refine absurd ?_ hp
    rw [← h]
    refine mem_map.mpr ⟨data.length, mem_range.mpr hlt, ?_⟩
    rw [zero_add, hzero]
  · obtain ⟨k, hk⟩ := Nat.exists_eq_add_of_le hle
    rw [hk, ByteMem.bytes_add, h] at hdata
    exact ⟨_, hdata⟩

theorem body_of_find {i : ℕ} (h : (range (data.length - 3)).find? (emptyLine http) = some i) :
    ∃ head, data = head ++ [13, 10, 13, 10] ++ http.bytes (i + 4) (data.length - i - 4) ∧
      ¬[13, 10, 13, 10] <:+: head ++ [13, 10, 13] := by
  obtain ⟨hline, hi, hfirst⟩ := find?_range_eq_some.mp h
  rw [mem_range] at hi
  rw [emptyLine, decide_eq_true_eq] at hline
  refine ⟨http.bytes 0 i, ?_, ?_⟩
  · rw [← hline]
    nth_rewrite 1 [← hdata]
    rw [show data.length = i + 4 + (data.length - i - 4) by omega, ByteMem.bytes_add, ByteMem.bytes_add,
      zero_add, zero_add, show i + 4 + (data.length - i - 4) - i - 4 = data.length - i - 4 by omega]
  · -- An empty line before would have been found first.
    rintro ⟨before, after, heq⟩
    have hthree : http.bytes i 3 = [13, 10, 13] := by
      have hsplit : [13, 10, 13] ++ [10] = http.bytes i 3 ++ http.bytes (i + 3) 1 := by
        rw [← ByteMem.bytes_add, hline]
        rfl
      exact (append_inj hsplit (by simp)).1.symm
    have hlen := congrArg length heq
    simp only [length_append, ByteMem.length_bytes, length_cons, length_nil] at hlen
    have hrange : http.bytes 0 (i + 3) = before ++ [13, 10, 13, 10] ++ after := by
      rw [ByteMem.bytes_add, zero_add, hthree, heq]
    have hline' := ByteMem.bytes_of_append hrange
    rw [zero_add] at hline'
    have hno := hfirst before.length (by omega)
    rw [emptyLine, Bool.not_eq_true', decide_eq_false_iff_not] at hno
    exact hno hline'

theorem isResponse_of_packageHttpBody (hzero : http data.length = 0) {start length : ℕ}
    (h : packageHttpBody http data.length = .ok (start, length)) :
    IsResponse data (http.bytes start length) := by
  rw [packageHttpBody] at h
  split_ifs at h with hno
  split at h
  · rename_i i hfind
    obtain ⟨rfl, rfl⟩ := Prod.mk.inj (Except.ok.inj h)
    refine ⟨?_, body_of_find hdata hfind⟩
    rw [not_and_or, Bool.not_eq_false, Bool.not_eq_false] at hno
    rcases hno with h11 | h10
    · exact .inl (isPrefix_of_startsBuffer hdata hzero (by decide) h11)
    · exact .inr (isPrefix_of_startsBuffer hdata hzero (by decide) h10)
  · cases h

end

/-- **What is fetched is the body of one mirror's response.** By induction on the
mirrors; what failed mirrors have left in the buffer does not matter. -/
theorem isResponse_of_fetch {https : ℕ → List UInt8 → List UInt8 → Answer} {relative : List UInt8} :
    ∀ {repos : List Repository} {r : ℕ} {http http' : ByteMem} {last : ℤ} {start length : ℕ},
      packageFetch https relative r repos http last = (http', .ok (start, length)) →
      ∃ i repo path, repos[i]? = some repo ∧ requestPath repo.base relative = some path ∧
        (https (r + i) repo.host path).result = 1 ∧
        IsResponse (https (r + i) repo.host path).data (http'.bytes start length)
  | [], r, http, http', last, start, length, h => absurd (congrArg Prod.snd h) (by simp [packageFetch])
  | repo :: repos, r, http, http', last, start, length, h => by
    have hnext : (∃ i repo' path, repos[i]? = some repo' ∧ requestPath repo'.base relative = some path ∧
        (https (r + 1 + i) repo'.host path).result = 1 ∧
        IsResponse (https (r + 1 + i) repo'.host path).data (http'.bytes start length)) →
        ∃ i repo' path, (repo :: repos)[i]? = some repo' ∧
          requestPath repo'.base relative = some path ∧ (https (r + i) repo'.host path).result = 1 ∧
          IsResponse (https (r + i) repo'.host path).data (http'.bytes start length) := by
      rintro ⟨i, repo', path, hrest⟩
      refine ⟨i + 1, repo', path, ?_⟩
      rwa [getElem?_cons_succ, show r + (i + 1) = r + 1 + i by omega]
    rw [packageFetch] at h
    split at h
    · exact hnext (isResponse_of_fetch h)
    rename_i path hpath
    dsimp only at h
    split at h
    · exact hnext (isResponse_of_fetch h)
    rename_i hresult
    split at h
    · rename_i body hbody
      obtain ⟨rfl, hbody'⟩ := Prod.mk.inj h
      cases hbody'
      refine ⟨0, repo, path, rfl, hpath, not_not.mp hresult, ?_⟩
      refine isResponse_of_packageHttpBody ?_ (Function.update_self ..) hbody
      refine Eq.trans (ByteMem.bytes_congr fun x _ hx => ?_) (ByteMem.bytes_store http 0 _)
      exact Function.update_of_ne (by omega) ..
    · exact hnext (isResponse_of_fetch h)

/-! ### Installing -/

/-- Some mirror delivers the package: a response whose body is `image` in base64,
where `image` has the digest of the catalog. -/
def Delivers (https : ℕ → List UInt8 → List UInt8 → Answer) (repositories : List Repository)
    (sha256 : List UInt8 → Digest) (p : Package) (image : List UInt8) : Prop :=
  ∃ i repo path body, repositories[i]? = some repo ∧ requestPath repo.base p.payload = some path ∧
    (https i repo.host path).result = 1 ∧ IsResponse (https i repo.host path).data body ∧
    (∀ bytes, Decodes body bytes ↔ bytes = image) ∧ (sha256 image).1.flatMap hexPair = p.sha256

/-- **Only what the catalog says is installed.** A package that is installed is left
alone. For one that is not, either nothing is written and the code is negative, or
some mirror has delivered the image and exactly the image is stored. -/
theorem package_install_delivered {W : Type} (fs : Varfs W)
    (https : ℕ → List UInt8 → List UInt8 → Answer) (repositories : List Repository)
    (sha256 : List UInt8 → Digest) (p : Package) (s : State W) :
    (packageInstalled fs p.name s.world = true → packageInstall fs https repositories sha256 p s = (s, 1)) ∧
      (packageInstalled fs p.name s.world = false →
        ((packageInstall fs https repositories sha256 p s).1.world = s.world ∧
          (packageInstall fs https repositories sha256 p s).2 < 0) ∨
        ∃ image, Delivers https repositories sha256 p image ∧
          (packageInstall fs https repositories sha256 p s).1.world =
            (storeImage fs (packagePath p.name) image s.world).1) := by
  refine ⟨fun h => by rw [packageInstall, if_pos h], fun h => ?_⟩
  rw [packageInstall, if_neg (by simp [h])]
  split
  · exact .inl ⟨rfl, Int.negSucc_lt_zero _⟩
  split
  · exact .inl ⟨rfl, Int.negSucc_lt_zero _⟩
  rename_i http start length hfetch
  split
  · exact .inl ⟨rfl, Int.negSucc_lt_zero _⟩
  rename_i image size hdecode
  rw [installImage]
  split
  · exact .inl ⟨rfl, Int.negSucc_lt_zero _⟩
  split
  · exact .inl ⟨rfl, Int.negSucc_lt_zero _⟩
  rename_i hhash
  refine .inr ⟨image.bytes 0 size, ?_, ?_⟩
  · obtain ⟨i, repo, path, hrepo, hpath, hresult, hresponse⟩ := isResponse_of_fetch hfetch
    rw [Nat.zero_add] at hresult hresponse
    have hcount : (http.bytes start length).count 61 < 2 ^ 32 := by
      obtain ⟨-, head, hdata, -⟩ := hresponse
      have hlen := congrArg List.length hdata
      have hfits := (https i repo.host path).fits
      have hle := (http.bytes start length).count_le_length (a := 61)
      rw [length_append, length_append] at hlen
      rw [capacity] at hfits
      omega
    have hdecodes := decodes_of_packageDecode hcount hdecode
    refine ⟨i, repo, path, _, hrepo, hpath, hresult, hresponse, fun bytes => ?_, ?_⟩
    · exact ⟨fun hbytes => hbytes.unique hdecodes, fun heq => heq ▸ hdecodes⟩
    · refine hex_of_hashLoop ?_ p.sha256_hex.2 (by simpa [packageHashValid] using hhash)
      rw [(sha256 (image.bytes 0 size)).2, p.sha256_hex.1]
  · split
    · rename_i heq
      rw [heq]
    · rename_i heq
      rw [heq]

/-! ### Two runs -/

/-- The header of a program, otherwise zeros, in base64. -/
def sampleBody : List UInt8 :=
  chars ['f', '0', 'V', 'M', 'R', 'g', 'I', 'B'] ++ replicate 16 65 ++ chars ['P', 'g'] ++
    replicate 60 65 ++ chars ['=', '=']

/-- A file system that is a list of files. -/
def listFs : Varfs (List (List UInt8 × List UInt8)) where
  mounted _ := true
  stat path w := w.any fun file => file.1 = path
  store path bytes w := (true, (path, bytes) :: w)
  chmod _ _ w := (true, w)
  sync w := (true, w)

/-- The package `"hello"`, with a digest of zeros. -/
def samplePackage : Package where
  name := chars ['h', 'e', 'l', 'l', 'o']
  payload := chars ['h', 'e', 'l', 'l', 'o', '.', 'b', '6', '4']
  sha256 := replicate 64 48
  sha256_hex := ⟨length_replicate, fun c hc => by
    rw [eq_of_mem_replicate hc]
    decide⟩

/-- A mirror. -/
def sampleMirror : Repository := ⟨chars ['m'], [47]⟩

/-- The response with the body. -/
def sampleAnswer : Answer where
  result := 1
  data := ok11 ++ [13, 10, 13, 10] ++ sampleBody
  fits := by decide

/-- The response of a mirror that cannot be reached. -/
def noAnswer : Answer := ⟨-1, [], by decide⟩

/-- The package is delivered and stored. -/
theorem package_install_sample :
    ∃ image, Delivers (fun _ _ _ => sampleAnswer) [sampleMirror] (fun _ => ⟨replicate 32 0, rfl⟩)
        samplePackage image ∧
      (packageInstall listFs (fun _ _ _ => sampleAnswer) [sampleMirror]
        (fun _ => ⟨replicate 32 0, rfl⟩) samplePackage ⟨fun _ => 1, fun _ => 1, []⟩).1.world =
        (storeImage listFs (packagePath samplePackage.name) image []).1 :=
  ((package_install_delivered listFs (fun _ _ _ => sampleAnswer) [sampleMirror]
    (fun _ => ⟨replicate 32 0, rfl⟩) samplePackage ⟨fun _ => 1, fun _ => 1, []⟩).2
      (by decide)).resolve_left fun h => absurd h.2 (by decide +kernel)

/-- No mirror delivers a package that is installed already, and the code is 1. -/
theorem package_install_again :
    (∀ image, ¬Delivers (fun _ _ _ => noAnswer) [sampleMirror] (fun _ => ⟨replicate 32 0, rfl⟩)
        samplePackage image) ∧
      (packageInstall listFs (fun _ _ _ => noAnswer) [sampleMirror]
        (fun _ => ⟨replicate 32 0, rfl⟩) samplePackage
        ⟨fun _ => 1, fun _ => 1, [(packagePath samplePackage.name, [])]⟩).2 = 1 := by
  refine ⟨?_, by decide +kernel⟩
  rintro image ⟨i, repo, path, body, -, -, hresult, -⟩
  exact absurd (show (-1 : ℤ) = 1 from hresult) (by decide)

end OS64.Packages
