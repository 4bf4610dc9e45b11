import OS64.Web.Model

/-!
# Chains of redirects

Whatever the servers answer, the requests of `curl`, `browser` and `browser_fetch` form a
chain (`OS64.Web.Chain`) in which no plain request follows one over TLS, there are
at most six requests, and a `Location:` that begins with a slash leads to the same
host in the same way as before.

The loops are three, and the argument is one: a round adds a request to the chain
of the rounds that follow (`OS64.Web.Tail.cons`). It has to know that the URL made
from a relative location is parsed as the host it was made from
(`OS64.Web.parseUrl_relative`), which needs no condition on the length: a host has at
most 127 characters, none of them a slash, and the slash that ends it is always
among the 255 characters that are kept.
-/

namespace OS64.Web

open List Text Shell Option

/-! ### URLs -/

theorem copyTo_nil (s : List UInt8) : copyTo [] s = s.take urlSize := rfl

/-- Copying one string after the other keeps the beginning of both. -/
theorem copyTo_take (url s : List UInt8) : copyTo (url.take urlSize) s = (url ++ s).take urlSize := by
  rw [copyTo, take_append]
  rcases Nat.le_total urlSize url.length with hle | hle
  · rw [length_take_of_le hle, Nat.sub_self, Nat.sub_eq_zero_of_le hle]
  · rw [take_of_length_le hle]

variable {r : Request} {url location : List UInt8} {wasSecure : Bool} {network : ℕ → Reply}

/-- What `parse_url` guarantees of a host. -/
theorem parseHost_eq_some {secure : Bool} {rest : List UInt8} (h : parseHost secure rest = some r) :
    r.secure = secure ∧ r.host ≠ [] ∧ r.host.length ≤ 127 ∧ slash ∉ r.host := by
  rw [parseHost] at h
  split_ifs at h with hempty
  cases h
  refine ⟨rfl, hempty, length_take_le _ _, fun hmem => ?_⟩
  have hin := mem_takeWhile_imp (mem_of_mem_take hmem)
  simp at hin

theorem parseUrl_host (h : parseUrl url = some r) : r.host ≠ [] ∧ r.host.length ≤ 127 ∧ slash ∉ r.host := by
  rw [parseUrl] at h
  split_ifs at h
  · exact (parseHost_eq_some h).2
  · exact (parseHost_eq_some h).2

/-- The scheme is recognised. -/
theorem parseUrl_scheme (secure : Bool) (rest : List UInt8) :
    parseUrl ((if secure then https else http) ++ rest) = parseHost secure rest := by
  have hstarts : ∀ p : List UInt8, starts (p ++ rest) p = true := fun p =>
    isPrefixOf_iff_prefix.mpr (prefix_append p rest)
  rw [parseUrl]
  cases secure with
  | false =>
    rw [if_neg Bool.false_ne_true, if_neg (by simp [starts, http, https, chars]), if_pos (hstarts http),
      show 7 = http.length from rfl, drop_left]
  | true => rw [if_pos rfl, if_pos (hstarts https), show 8 = https.length from rfl, drop_left]

/-- The host ends where the path begins. -/
theorem takeWhile_host {host path : List UInt8} (hslash : slash ∉ host)
    (hpath : path = [] ∨ path.head? = some slash) : (host ++ path).takeWhile (· != slash) = host := by
  have hhost : ∀ c ∈ host, (c != slash) = true := fun c hc => bne_iff_ne.mpr fun h => hslash (h ▸ hc)
  rw [takeWhile_append_of_pos hhost]
  rcases path with _ | ⟨c, path⟩
  · rw [takeWhile_nil, append_nil]
  · obtain rfl : c = slash := by simpa using hpath
    rw [takeWhile_cons_of_neg (by simp), append_nil]

/-- **A relative redirect leads to the same host**: the URL made of the scheme and the
host of a request and a location that begins with a slash, as far as it fits, is
parsed as a request to that host, in the same way. -/
theorem parseUrl_relative {r r' : Request} (hne : r.host ≠ [])
    (hlen : r.host.length ≤ 127) (hslash : slash ∉ r.host) (hloc : location.head? = some slash)
    (h : parseUrl (((if r.secure then https else http) ++ r.host ++ location).take urlSize) = some r') :
    r'.secure = r.secure ∧ r'.host = r.host := by
  obtain ⟨rest, rfl⟩ : ∃ rest, location = slash :: rest := by
    rcases location with _ | ⟨c, rest⟩
    · cases hloc
    · exact ⟨rest, by rw [head?_cons, some.injEq] at hloc; rw [hloc]⟩
  have hscheme : (if r.secure then https else http).length ≤ 8 := by split <;> decide
  -- the slash after the host is among the characters that are kept
  obtain ⟨n, hroom⟩ : ∃ n, urlSize = ((if r.secure then https else http) ++ r.host).length + (n + 1) :=
    ⟨urlSize - ((if r.secure then https else http).length + r.host.length + 1), by
      rw [length_append, urlSize]; omega⟩
  rw [hroom, take_length_add_append, take_succ_cons, append_assoc, parseUrl_scheme,
    parseHost, takeWhile_host hslash (.inr rfl), take_of_length_le hlen, if_neg hne] at h
  cases h
  exact ⟨rfl, rfl⟩

/-- A relative location is no URL. -/
theorem parseUrl_slash (h : location.head? = some slash) : parseUrl location = none := by
  rcases location with _ | ⟨c, rest⟩
  · cases h
  · rw [head?_cons, some.injEq] at h
    subst h
    rw [parseUrl, if_neg, if_neg]
    · simp [starts, http, chars, slash]
    · simp [starts, https, chars, slash]

/-! ### Whole URLs -/

/-- A URL of the form `scheme://host[/path]`. -/
structure Url where
  secure : Bool
  host : List UInt8
  path : List UInt8
  host_ne : host ≠ []
  host_slash : slash ∉ host
  path_head : path = [] ∨ path.head? = some slash

/-- The characters of a URL. -/
def Url.text (u : Url) : List UInt8 := (if u.secure then https else http) ++ (u.host ++ u.path)

/-- The request that a URL says. -/
def Url.request (u : Url) : Request := ⟨u.secure, u.host, if u.path = [] then [slash] else u.path⟩

/-- What `parse_url` takes of a URL. -/
theorem parseUrl_text (u : Url) : parseUrl u.text = some ⟨u.secure, u.host.take 127,
    if (u.host ++ u.path).drop (u.host.take 127).length = [] then [slash]
    else ((u.host ++ u.path).drop (u.host.take 127).length).take 127⟩ := by
  rw [Url.text, parseUrl_scheme, parseHost, takeWhile_host u.host_slash u.path_head, if_neg]
  intro h
  rcases take_eq_nil_iff.mp h with h | h
  · cases h
  · exact u.host_ne h

/-- **`parse_url` refuses a URL or takes the whole of it exactly if the host and the path have
at most 127 characters each.** The copy of a longer host stops inside of it, and the path
begins there. -/
theorem parseUrl_whole_iff (u : Url) :
    (parseUrl u.text = none ∨ parseUrl u.text = some u.request) ↔ u.host.length ≤ 127 ∧ u.path.length ≤ 127 := by
  rw [parseUrl_text, Url.request]
  constructor
  · rintro (h | h)
    · cases h
    · rw [Option.some.injEq, Request.mk.injEq] at h
      obtain ⟨-, hhost, hpath⟩ := h
      rw [hhost, drop_left] at hpath
      refine ⟨(take_eq_self_iff _).mp hhost, ?_⟩
      split_ifs at hpath with hnil
      · rw [hnil]
        exact Nat.zero_le 127
      · exact (take_eq_self_iff _).mp hpath
  · rintro ⟨hhost, hpath⟩
    rw [take_of_length_le hhost, drop_left, take_of_length_le hpath]
    exact .inr rfl

/-- A host of 128 characters. -/
def longHost : Url where
  secure := true
  host := replicate 128 97
  path := []
  host_ne := cons_ne_nil _ _
  host_slash h := absurd (eq_of_mem_replicate h) (by decide)
  path_head := .inl rfl

/-- A request goes to another host, for the path that is left of the name. -/
theorem parseUrl_longHost : longHost.text.length ≤ 255 ∧
    parseUrl longHost.text = some ⟨true, replicate 127 97, [97]⟩ := by
  refine ⟨?_, ?_⟩
  · simp [Url.text, longHost, https, chars]
  · rw [parseUrl_text]
    simp [longHost]

/-! ### Chains -/

/-- The location in a response begins with a slash. -/
def Relative (r : Reply) : Prop :=
  ∃ location, redirectLocation r.output = some location ∧ location.head? = some slash

/-- What holds of the requests made for one URL: once a request has been made over TLS,
all are; there are at most six; and what follows a relative redirect goes to the same
host in the same way. -/
structure Chain (exchanges : List Exchange) : Prop where
  secure : exchanges.Pairwise fun x y => x.request.secure = true → y.request.secure = true
  length : exchanges.length ≤ 6
  host : exchanges.IsChain fun x y => Relative x.reply →
    y.request.secure = x.request.secure ∧ y.request.host = x.request.host

theorem Chain.nil : Chain [] := ⟨List.Pairwise.nil, Nat.zero_le 6, List.IsChain.nil⟩

/-- What holds of the requests a loop still makes: for the URL it is given, with at most
`n` rounds, after a request over TLS if `wasSecure` is set. -/
structure Tail (n : ℕ) (wasSecure : Bool) (url : List UInt8) (exchanges : List Exchange) : Prop where
  first : ∀ x ∈ exchanges.head?, parseUrl url = some x.request
  kept : wasSecure = true → ∀ x ∈ exchanges, x.request.secure = true
  secure : exchanges.Pairwise fun x y => x.request.secure = true → y.request.secure = true
  length : exchanges.length ≤ n
  host : exchanges.IsChain fun x y => Relative x.reply →
    y.request.secure = x.request.secure ∧ y.request.host = x.request.host

section

variable {n : ℕ} {wasSecure : Bool} {url : List UInt8} {exchanges : List Exchange}

theorem Tail.nil : Tail n wasSecure url [] where
  first x hx := by cases hx
  kept _ x hx := by cases hx
  secure := List.Pairwise.nil
  length := Nat.zero_le n
  host := List.IsChain.nil

theorem Tail.chain (h : Tail 6 wasSecure url exchanges) : Chain exchanges := ⟨h.secure, h.length, h.host⟩

/-- **One round**: a request that is no downgrade, and after it the requests for the URL
it was redirected to, in a loop that knows how it was made. -/
theorem Tail.cons {x : Exchange} {url' : List UInt8} (hfirst : parseUrl url = some x.request)
    (hkept : wasSecure = true → x.request.secure = true)
    (hrelative : Relative x.reply → ∀ r', parseUrl url' = some r' →
      r'.secure = x.request.secure ∧ r'.host = x.request.host)
    (h : Tail n x.request.secure url' exchanges) : Tail (n + 1) wasSecure url (x :: exchanges) where
  first y hy := by
    rw [head?_cons, mem_some_iff] at hy
    rw [hfirst, hy]
  kept hwas y hy := by
    rcases mem_cons.mp hy with rfl | hy
    · exact hkept hwas
    · exact h.kept (hkept hwas) y hy
  secure := pairwise_cons.mpr ⟨fun y hy hsec => h.kept hsec y hy, h.secure⟩
  length := Nat.succ_le_succ h.length
  host := isChain_cons.mpr ⟨fun y hy hrel => hrelative hrel y.request (h.first y hy), h.host⟩

end

/-! ### The loops -/

/-- The requests of a loop: for the URL, and as long as there is a response, for the one that `next` finds in
it, in at most so many rounds. -/
def chase (network : ℕ → Reply) (next : Request → Reply → Option (List UInt8)) :
    ℕ → ℕ → Bool → List UInt8 → List Exchange
  | 0, _, _, _ => []
  | left + 1, k, wasSecure, url =>
    match parseUrl url with
    | none => []
    | some request =>
      if wasSecure ∧ ¬request.secure then []
      else ⟨request, network k⟩ ::
        match if (network k).result = 1 then next request (network k) else none with
        | some target => chase network next left (k + 1) request.secure target
        | none => []

/-- Where `curl` goes from a response. -/
def curlNext (o : CurlOptions) (_ : Request) (r : Reply) : Option (List UInt8) :=
  if o.follow then redirectLocation r.output else none

/-- Where `browser` goes from a response. -/
def browserNext (request : Request) (r : Reply) : Option (List UInt8) :=
  (redirectLocation r.output).map (browserTarget request)

/-- Where `browser_fetch` goes from a response. -/
def fetchNext (request : Request) (r : Reply) : Option (List UInt8) :=
  (redirectLocation r.output).map (fetchTarget request)

section

variable {network : ℕ → Reply} {next : Request → Reply → Option (List UInt8)}

theorem Seen.after_fst (out : List Shown) (s : List Exchange × Seen) : (Seen.after out s).1 = s.1 := rfl

theorem curlLoop_fst {o : CurlOptions} (hlive : o.live = false) (left k : ℕ) (wasSecure : Bool) (url : List UInt8) :
    (curlLoop network o left k wasSecure url).1 = chase network (curlNext o) (left + 1) k wasSecure url := by
  induction left using Nat.strongRecOn generalizing k wasSecure url with
  | ind left ih =>
    rw [curlLoop, chase, hlive]
    rcases parseUrl url with _ | request
    · rfl
    dsimp only
    by_cases hdown : wasSecure = true ∧ ¬request.secure = true
    · rw [if_pos hdown, if_pos hdown]
    rw [if_neg hdown, if_neg hdown, if_neg Bool.false_ne_true, Seen.after_fst, curlNext]
    by_cases hresult : (network k).result = 1
    · rw [if_neg (not_not.mpr hresult), if_pos hresult]
      rcases left with _ | left <;> rcases (if o.follow then _ else none) with _ | location
      · rfl
      · rfl
      · rfl
      · exact congrArg (cons _) (ih left (Nat.lt_succ_self left) _ _ _)
    · rw [if_pos hresult, if_neg hresult]

theorem browserLoop_fst (width left k : ℕ) (wasSecure : Bool) (url : List UInt8) :
    (browserLoop network width left k wasSecure url).1 = chase network browserNext left k wasSecure url := by
  induction left generalizing k wasSecure url with
  | zero => rfl
  | succ left ih =>
    rw [browserLoop, chase]
    rcases parseUrl url with _ | request
    · rfl
    dsimp only
    by_cases hdown : wasSecure = true ∧ ¬request.secure = true
    · rw [if_pos hdown, if_pos hdown]
    rw [if_neg hdown, if_neg hdown, Seen.after_fst, browserNext]
    by_cases hresult : (network k).result = 1
    · rw [if_neg (not_not.mpr hresult), if_pos hresult]
      rcases redirectLocation (network k).output with _ | location
      · rfl
      · exact congrArg (cons _) (ih _ _ _)
    · rw [if_pos hresult, if_neg hresult]

theorem fetchLoop_fst (capacity left k : ℕ) (wasSecure : Bool) (url : List UInt8) :
    (fetchLoop network capacity left k wasSecure url).1 = chase network fetchNext left k wasSecure url := by
  induction left generalizing k wasSecure url with
  | zero => rfl
  | succ left ih =>
    rw [fetchLoop, chase]
    rcases parseUrl url with _ | request
    · rfl
    dsimp only
    by_cases hdown : wasSecure = true ∧ ¬request.secure = true
    · rw [if_pos hdown, if_pos hdown]
    rw [if_neg hdown, if_neg hdown, fetchNext]
    by_cases hresult : (network k).result = 1
    · rw [if_neg (not_not.mpr hresult), if_pos hresult]
      rcases redirectLocation (network k).output with _ | location
      · rfl
      · exact congrArg (cons _) (ih _ _ _)
    · rw [if_pos hresult, if_neg hresult]

end

/-- The target of a relative redirect is parsed as the host it was made from. -/
def Stays (next : Request → Reply → Option (List UInt8)) : Prop :=
  ∀ {url target : List UInt8} {request r' : Request} {r : Reply}, parseUrl url = some request →
    next request r = some target → Relative r → parseUrl target = some r' →
    r'.secure = request.secure ∧ r'.host = request.host

theorem stays_curlNext (o : CurlOptions) : Stays (curlNext o) := by
  rintro url target request r' r - hnext ⟨location, hloc, hslash⟩ hr'
  -- a relative location is taken for a URL, and no request follows
  rw [curlNext] at hnext
  split_ifs at hnext
  rw [hloc, some.injEq] at hnext
  rw [← hnext, parseUrl_slash hslash] at hr'
  cases hr'

/-- `browser` and `browser_fetch` put the scheme and the host in front of a relative location. -/
theorem stays_map {target : Request → List UInt8 → List UInt8}
    (htarget : ∀ request location, location.head? = some slash →
      target request location = ((if request.secure then https else http) ++ request.host ++ location).take urlSize) :
    Stays fun request r => (redirectLocation r.output).map (target request) := by
  rintro url url' request r' r hparse hnext ⟨location, hloc, hslash⟩ hr'
  dsimp only at hnext
  rw [hloc, map_some, some.injEq] at hnext
  obtain ⟨hne, hlen, hnot⟩ := parseUrl_host hparse
  rw [← hnext, htarget request location hslash] at hr'
  exact parseUrl_relative hne hlen hnot hslash hr'

theorem stays_browserNext : Stays browserNext := stays_map fun request location hslash => by
  rw [browserTarget, if_pos hslash, copyTo_nil, copyTo_take, copyTo_take]

theorem stays_fetchNext : Stays fetchNext := stays_map fun request location hslash => by
  rw [fetchTarget, if_pos hslash, copyTo_nil, copyTo_take, copyTo_take]

theorem not_downgrade {request : Request} (h : ¬(wasSecure = true ∧ ¬request.secure = true))
    (hwas : wasSecure = true) : request.secure = true := by
  by_contra hsec
  exact h ⟨hwas, hsec⟩

/-- The last round. -/
theorem Tail.last {n : ℕ} {x : Exchange} (hfirst : parseUrl url = some x.request)
    (hkept : wasSecure = true → x.request.secure = true) : Tail (n + 1) wasSecure url [x] :=
  Tail.cons hfirst hkept (fun _ _ (h : parseUrl [] = some _) => by cases h) Tail.nil

/-- **The requests of a loop form the tail of a chain.** -/
theorem tail_chase {next : Request → Reply → Option (List UInt8)} (hnext : Stays next) (left k : ℕ)
    (wasSecure : Bool) (url : List UInt8) : Tail left wasSecure url (chase network next left k wasSecure url) := by
  induction left generalizing k wasSecure url with
  | zero => exact Tail.nil
  | succ left ih =>
    rw [chase]
    split
    · exact Tail.nil
    rename_i request hparse
    by_cases hdown : wasSecure = true ∧ ¬request.secure = true
    · rw [if_pos hdown]
      exact Tail.nil
    rw [if_neg hdown]
    split
    · rename_i target htarget
      have htarget := (ite_none_right_eq_some.mp htarget).2
      exact Tail.cons hparse (not_downgrade hdown) (fun hrel r' hr' => hnext hparse htarget hrel hr') (ih _ _ _)
    · exact Tail.last hparse (not_downgrade hdown)

/-- `curl -l` makes one request, and follows nothing. -/
theorem tail_live {o : CurlOptions} (hlive : o.live = true) (left k : ℕ) (wasSecure : Bool)
    (url : List UInt8) : Tail (left + 1) wasSecure url (curlLoop network o left k wasSecure url).1 := by
  rw [curlLoop]
  split
  · exact Tail.nil
  rename_i request hparse
  split_ifs with hdown
  · exact Tail.nil
  · exact Tail.nil
  · exact Tail.last hparse (not_downgrade hdown)

/-- **Redirects are safe**: for all arguments and whatever the servers reply, the requests
that `curl`, `browser` and `browser_fetch` make form a chain without downgrade, of
at most six requests, in which a relative redirect stays where it is. -/
theorem redirects_form_chain (network : ℕ → Reply) :
    (∀ a, Chain (cCurl network a).1) ∧ (∀ width a, Chain (cBrowser network width a).1) ∧
      ∀ requested pointers capacity, Chain (abiBrowserFetch network requested pointers capacity).1 := by
  refine ⟨fun a => ?_, fun width a => ?_, fun requested pointers capacity => ?_⟩
  · rw [cCurl]
    split
    · exact Chain.nil
    · split
      · exact Chain.nil
      · rename_i o _ _ _ _ _
        rcases hlive : o.live
        · rw [curlLoop_fst hlive]
          exact (tail_chase (stays_curlNext o) _ _ _ _).chain
        · exact (tail_live hlive _ _ _ _).chain
  · rw [cBrowser]
    split_ifs
    · exact Chain.nil
    · split
      · exact Chain.nil
      · rw [browserLoop_fst]
        exact (tail_chase stays_browserNext _ _ _ _).chain
  · rcases requested with _ | requested
    · exact Chain.nil
    · rw [abiBrowserFetch]
      split_ifs
      · exact Chain.nil
      all_goals
        rw [fetchLoop_fst]
        exact (tail_chase stays_fetchNext _ _ _ _).chain

end OS64.Web
