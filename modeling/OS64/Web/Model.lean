import OS64.Shell.Files

/-!
# Fetching pages

`curl`, `browser` and the call `browser_fetch` for applications, of
`kernel/core/kernel.c`. Each of them has a loop of its own that makes a request, looks for
a `Location:` in the response and makes another request there.

The network is a sequence of replies (`OS64.Web.Reply`), one for each request, that
may be anything: `network_http_get` and `tls_https_get` make one request each, and
return what they could not do or the bytes of a response, cut off at the size of
`http_output`. Beside what a command shows, its model returns the requests it
made, with their replies.

A URL is a string without NUL; those given are what comes before the first.
-/

namespace OS64.Web

open Text Shell Auth

/-! ### Requests -/

/-- A request: over TLS or not, to which host, for which path. -/
structure Request where
  secure : Bool
  host : List UInt8
  path : List UInt8
  deriving DecidableEq

/-- What becomes of a request: the result of the function that makes it, 1 if there is a
response, the detail of an error of TLS, whether Ctrl+C has been typed, and the
bytes of the response. -/
structure Reply where
  result : Int32
  detail : UInt32
  cancelled : Bool
  bytes : List UInt8
  deriving DecidableEq

/-- A request and its reply. -/
structure Exchange where
  request : Request
  reply : Reply
  deriving DecidableEq

/-- `sizeof http_output`. -/
def outputSize : ℕ := 32768

/-- The bytes of a response that are in `http_output`. -/
def Reply.output (r : Reply) : List UInt8 := r.bytes.take (outputSize - 1)

/-! ### URLs -/

/-- The characters of `"http://"`. -/
def http : List UInt8 := chars ['h', 't', 't', 'p', ':', '/', '/']

/-- The characters of `"https://"`. -/
def https : List UInt8 := chars ['h', 't', 't', 'p', 's', ':', '/', '/']

/-- `'/'`. -/
def slash : UInt8 := 47

/-- The room in `url`. -/
def urlSize : ℕ := 255

/-- A loop that copies a string behind what is in `url` as long as there is room. -/
def copyTo (url s : List UInt8) : List UInt8 := url ++ s.take (urlSize - url.length)

/-- `argument_word`. -/
def argumentWord (a : List UInt8) : Option (List UInt8) :=
  let w := word urlSize (skipSpaces a)
  if w = [] then none else some w

/-- The part of `parse_url` after the scheme. -/
def parseHost (secure : Bool) (rest : List UInt8) : Option Request :=
  let host := (rest.takeWhile (· != slash)).take 127
  if host = [] then none
  else
    let rest := rest.drop host.length
    some ⟨secure, host, if rest = [] then [slash] else rest.take 127⟩

/-- `parse_url`. -/
def parseUrl (url : List UInt8) : Option Request :=
  if starts url https then parseHost true (url.drop 8)
  else if starts url http then parseHost false (url.drop 7)
  else none

/-- `"Location:"`. -/
def locationKey : List UInt8 := chars ['L', 'o', 'c', 'a', 't', 'i', 'o', 'n', ':']

/-- The search of `redirect_location` from the position `i` on: what follows the
key. -/
def afterKey (i : ℕ) : List UInt8 → Option (List UInt8)
  | [] => none
  | c :: l =>
    if outputSize ≤ i + 9 then none
    else if starts (c :: l) locationKey then some ((c :: l).drop 9)
    else afterKey (i + 1) l

/-- `redirect_location`. -/
def redirectLocation (output : List UInt8) : Option (List UInt8) :=
  match afterKey 0 (cstr output) with
  | none => none
  | some rest =>
    let location := ((skipSpaces rest).takeWhile fun c => c != 13 && c != 10).take urlSize
    if location = [] then none else some location

/-! ### `curl` -/

/-- The options before the URL. -/
structure CurlOptions where
  follow : Bool
  live : Bool

/-- The options of `c_curl`, and what follows them; `fuel` is the length of the
argument. -/
def curlOptions : ℕ → CurlOptions → List UInt8 → Option (CurlOptions × List UInt8)
  | 0, o, a => some (o, a)
  | fuel + 1, o, a =>
    match a with
    | 45 :: c :: rest =>
      if c = 76 ∧ (rest = [] ∨ rest.head? = some 32) then
        curlOptions fuel { o with follow := true } (skipSpaces rest)
      else if c = 108 ∧ (rest = [] ∨ rest.head? = some 32) then
        curlOptions fuel { o with live := true } (skipSpaces rest)
      else none
    | [45] => none
    | a => some (o, a)

/-- `tls_error`. -/
def tlsError (result : Int32) (detail : UInt32) : List Shown :=
  if result = -1 then [.message "curl: DNS resolution failed\n"]
  else if result = -2 then [.message "curl: TCP connection failed\n"]
  else if result = -3 then [.message "curl: TLS entropy source unavailable\n"]
  else if result = -4 then [.message "curl: certificate validation clock unavailable\n"]
  else if result = -5 then
    [.message "curl: certificate validation failed (BearSSL X.509 error ", .number detail.toNat, .message ")\n"]
  else if result = -6 then
    [.message "curl: TLS handshake failed (BearSSL error ", .number detail.toNat, .message ")\n"]
  else [.message "curl: TLS transport I/O failed (stage ", .number detail.toNat, .message ")\n"]

/-- What `curl` says of a request that failed. -/
def curlFailure (secure : Bool) (r : Reply) : Seen :=
  if r.cancelled then ⟨[.message "\n^C\n"], 130, none⟩
  else if secure then ⟨tlsError r.result r.detail, 0, none⟩
  else if r.result = -2 then ⟨[.message "curl: DNS resolution failed\n"], 0, none⟩
  else ⟨[.message "curl: TCP connection failed\n"], 0, none⟩

/-- The response as `curl` shows it. -/
def curlResponse (output : List UInt8) : List Shown :=
  [.text (output.filter (· != 13))] ++
    if output ≠ [] ∧ output.getLast? ≠ some 10 then [.text [10]] else []

/-- What follows the stream of `curl -l`, whose characters are shown as they come. -/
def curlStream (r : Reply) : Seen where
  out := [.text (r.bytes.filter (· != 13))] ++
    (if r.result = 130 then [.message "\n^C\n"]
    else if r.result = -2 then [.message "curl: DNS resolution failed\n"]
    else if r.result = -3 then [.message "curl: TCP connection failed\n"]
    else if r.result = -4 then [.message "curl: stream receive failed\n"]
    else [])
  status := if r.result = 130 then 130 else if r.result = 1 then 0 else 1

/-- A command goes on after it has shown something. -/
def Seen.after (out : List Shown) (s : List Exchange × Seen) : List Exchange × Seen :=
  (s.1, { s.2 with out := out ++ s.2.out })

/-- The loop of `c_curl`, with `left` redirects that may still be followed (it is
`5 - redirects`); `k` requests have been made. -/
def curlLoop (network : ℕ → Reply) (o : CurlOptions) (left k : ℕ) (wasSecure : Bool) (url : List UInt8) :
    List Exchange × Seen :=
  match parseUrl url with
  | none => ([], ⟨[.message "curl: URL must begin with http:// or https://\n"], 2, none⟩)
  | some request =>
    if wasSecure ∧ ¬request.secure then
      ([], ⟨[.message "curl: refusing HTTPS-to-HTTP redirect downgrade\n"], 1, none⟩)
    else if o.live then
      if request.secure then
        ([], ⟨[.message "curl: -l streaming currently supports HTTP endpoints only\n"], 2, none⟩)
      else
        Seen.after [.message "* Live stream from ", .text request.host, .message " (Ctrl+C to stop)\n"]
          ([⟨request, network k⟩], curlStream (network k))
    else
      Seen.after [.message "* ", .message (if request.secure then "TLS connecting to " else "Connecting to "),
          .text request.host, .message "\n"]
        (if (network k).result ≠ 1 then ([⟨request, network k⟩], curlFailure request.secure (network k))
        else match left, if o.follow then redirectLocation (network k).output else none with
          | left + 1, some location =>
            let (exchanges, seen) := Seen.after [.message "* Following redirect to ", .text location, .message "\n"]
              (curlLoop network o left (k + 1) request.secure location)
            (⟨request, network k⟩ :: exchanges, seen)
          | _, _ => ([⟨request, network k⟩], ⟨curlResponse (network k).output, 0, none⟩))
termination_by left

/-- What `curl -l` makes of a URL without a scheme. -/
def curlExpand (o : CurlOptions) (url : List UInt8) : List UInt8 :=
  if o.live ∧ ¬starts url http ∧ ¬starts url https then copyTo http url else url

/-- `c_curl`. -/
def cCurl (network : ℕ → Reply) (a : List UInt8) : List Exchange × Seen :=
  match curlOptions a.length ⟨false, false⟩ (skipSpaces a) with
  | none => ([], ⟨[.message "curl: usage: curl [-L] [-l] URL\n"], 2, none⟩)
  | some (o, a) => match argumentWord a with
    | none => ([], ⟨[.message "curl: usage: curl [-L] [-l] URL\n"], 2, none⟩)
    | some url => curlLoop network o 5 0 false (curlExpand o url)

/-! ### Rendering -/

/-- `ascii_lower`. -/
def asciiLower (c : UInt8) : UInt8 := if 65 ≤ c ∧ c ≤ 90 then c + 32 else c

/-- `browser_tag`. -/
def browserTag (tag name : List UInt8) : Bool :=
  let tag := if (cstr tag).head? = some slash then (cstr tag).tail else cstr tag
  starts (tag.map asciiLower) name &&
    match tag.drop name.length with
    | [] => true
    | c :: _ => c == 32 || c == slash

/-- The tags that begin a new line. -/
def breaks (tag : List UInt8) : Bool :=
  browserTag tag (chars ['p']) || browserTag tag (chars ['b', 'r']) ||
    browserTag tag (chars ['d', 'i', 'v']) || browserTag tag (chars ['h', '1']) ||
    browserTag tag (chars ['h', '2']) || browserTag tag (chars ['l', 'i'])

/-- What follows the first occurrence of `mark`. -/
def afterMark (mark : List UInt8) : List UInt8 → Option (List UInt8)
  | [] => none
  | c :: l => if starts (c :: l) mark then some ((c :: l).drop mark.length) else afterMark mark l

/-- The body of a response for `browser_render`: what follows an empty line, or
everything. -/
def body (response : List UInt8) : List UInt8 :=
  match afterMark [13, 10, 13, 10] response with
  | some rest => rest
  | none => (afterMark [10, 10] response).getD response

/-- A character reference at the beginning: the character and how much more it
takes. -/
def entity (rest : List UInt8) : Option (UInt8 × ℕ) :=
  if 5 < rest.length ∧ starts rest (chars ['&', 'a', 'm', 'p', ';']) then some (38, 4)
  else if 4 < rest.length ∧ starts rest (chars ['&', 'l', 't', ';']) then some (60, 3)
  else if 4 < rest.length ∧ starts rest (chars ['&', 'g', 't', ';']) then some (62, 3)
  else if 6 < rest.length ∧ starts rest (chars ['&', 'q', 'u', 'o', 't', ';']) then some (34, 5)
  else if 6 < rest.length ∧ starts rest (chars ['&', 'n', 'b', 's', 'p', ';']) then some (32, 5)
  else none

/-- Space, tab, carriage return and line feed. -/
def isBlank (c : UInt8) : Bool := c == 32 || c == 9 || c == 13 || c == 10

/-- The local variables of `browser_render`; `tag` holds at most 19 characters. -/
structure Renderer where
  inTag : Bool
  skip : Bool
  pendingSpace : Bool
  tag : List UInt8
  column : ℕ
  out : List UInt8

/-- The end of a tag. -/
def Renderer.closeTag (s : Renderer) : Renderer :=
  let s := { s with inTag := false }
  let s := if browserTag s.tag (chars ['s', 'c', 'r', 'i', 'p', 't']) ||
      browserTag s.tag (chars ['s', 't', 'y', 'l', 'e'])
    then { s with skip := (cstr s.tag).head? != some slash } else s
  if breaks s.tag then
    if s.column ≠ 0 then { s with out := s.out ++ [10], column := 0, pendingSpace := false }
    else { s with pendingSpace := false }
  else s

/-- A character of the text. -/
def Renderer.show (width : ℕ) (s : Renderer) (c : UInt8) : Renderer :=
  if isBlank c then { s with pendingSpace := decide (s.column ≠ 0) }
  else
    let s := if s.pendingSpace then
        if width ≤ s.column + 1 then { s with out := s.out ++ [10], column := 0, pendingSpace := false }
        else { s with out := s.out ++ [32], column := s.column + 1, pendingSpace := false }
      else s
    let s := if width ≤ s.column + 1 then { s with out := s.out ++ [10], column := 0 } else s
    if 32 ≤ c then { s with out := s.out ++ [c], column := s.column + 1 } else s

/-- The loop of `browser_render`; `skipped` characters belong to a character
reference that has been read. -/
def renderFrom (width : ℕ) (s : Renderer) (skipped : ℕ) : List UInt8 → Renderer
  | [] => s
  | c :: l =>
    match skipped with
    | skipped + 1 => renderFrom width s skipped l
    | 0 =>
      if c = 60 then renderFrom width { s with inTag := true, tag := [] } 0 l
      else if s.inTag then
        if c = 62 then renderFrom width s.closeTag 0 l
        else renderFrom width { s with tag := if s.tag.length + 1 < 20 then s.tag ++ [asciiLower c] else s.tag } 0 l
      else if s.skip then renderFrom width s 0 l
      else match if c = 38 then entity (c :: l) else none with
        | some (c, n) => renderFrom width (s.show width c) n l
        | none => renderFrom width (s.show width c) 0 l

/-- `browser_render` on a display of the given width. -/
def browserRender (width : ℕ) (response : List UInt8) : List UInt8 :=
  let s := renderFrom width ⟨false, false, false, [], 0, []⟩ 0 (body response)
  if s.column ≠ 0 then s.out ++ [10] else s.out

/-- The loop of `browser_render_buffer` into a buffer of `cap` bytes. -/
def renderBufferFrom (cap : ℕ) (tag space : Bool) (name out : List UInt8) : List UInt8 → List UInt8
  | [] => out
  | c :: l =>
    if cap ≤ out.length + 1 then out
    else if c = 60 then renderBufferFrom cap true space [] out l
    else if tag then
      if c = 62 then
        renderBufferFrom cap false space name
          (if breaks name ∧ out ≠ [] ∧ out.getLast? ≠ some 10 then out ++ [10] else out) l
      else renderBufferFrom cap true space (if name.length + 1 < 16 then name ++ [asciiLower c] else name) out l
    else if isBlank c then renderBufferFrom cap false (out ≠ [] ∧ out.getLast? ≠ some 10) name out l
    else
      let (space, out) := if space ∧ out.length + 1 < cap then (false, out ++ [32]) else (space, out)
      renderBufferFrom cap false space name (if 32 ≤ c then out ++ [c] else out) l

/-- `browser_render_buffer`: the buffer up to the NUL that ends it, and the number
of characters that is returned, which may count the one the NUL has replaced. -/
def browserRenderBuffer (response : List UInt8) (cap : ℕ) : List UInt8 × ℕ :=
  let out := renderBufferFrom cap false false [] [] ((afterMark [13, 10, 13, 10] response).getD response)
  let out := if out ≠ [] ∧ out.getLast? ≠ some 10 ∧ out.length + 1 < cap then out ++ [10] else out
  (out.take (cap - 1), out.length)

/-! ### `browser` -/

/-- What `browser` says of a request that failed. -/
def browserFailure (secure : Bool) (r : Reply) : List Shown :=
  [.message "browser: "] ++
  (if secure then
    [.message (if r.result = -1 then "DNS resolution failed"
      else if r.result = -2 then "TCP connection failed"
      else if r.result = -5 then "certificate validation failed"
      else if r.result = -6 then "TLS handshake failed"
      else "HTTPS transport failed")] ++
    if r.detail ≠ 0 then [.message " (code ", .number r.detail.toNat, .text [41]] else []
  else [.message (if r.result = -2 then "DNS resolution failed" else "HTTP connection failed")]) ++
  [.text [10]]

/-- The URL a redirect of `browser` leads to. -/
def browserTarget (request : Request) (location : List UInt8) : List UInt8 :=
  if location.head? = some slash then
    copyTo (copyTo (copyTo [] (if request.secure then https else http)) request.host) location
  else copyTo [] location

/-- The loop of `c_browser`, with `left` rounds to go; `k` requests have been made. -/
def browserLoop (network : ℕ → Reply) (width : ℕ) : ℕ → ℕ → Bool → List UInt8 → List Exchange × Seen
  | 0, _, _, _ => ([], ⟨[.message "browser: too many redirects\n"], 1, none⟩)
  | left + 1, k, wasSecure, url =>
    match parseUrl url with
    | none => ([], ⟨[.message "browser: invalid URL\n"], 2, none⟩)
    | some request =>
      if wasSecure ∧ ¬request.secure then
        ([], ⟨[.message "browser: refusing HTTPS-to-HTTP redirect downgrade\n"], 1, none⟩)
      else
        Seen.after [.message "Loading ", .text url, .message "...\n"]
          (if (network k).result ≠ 1 then
            ([⟨request, network k⟩], ⟨browserFailure request.secure (network k), 1, none⟩)
          else match redirectLocation (network k).output with
            | some location =>
              let (exchanges, seen) :=
                browserLoop network width left (k + 1) request.secure (browserTarget request location)
              (⟨request, network k⟩ :: exchanges, seen)
            | none => ([⟨request, network k⟩], ⟨[.message "\n", .text (browserRender width (network k).output)], 0, none⟩))

/-- A URL without a scheme is one for TLS. -/
def browserExpand (url : List UInt8) : List UInt8 :=
  if ¬starts url http ∧ ¬starts url https then copyTo https url else url

/-- `c_browser`. -/
def cBrowser (network : ℕ → Reply) (width : ℕ) (a : List UInt8) : List Exchange × Seen :=
  let a := skipSpaces a
  if a = [] ∨ a = chars ['-', '-', 'h', 'e', 'l', 'p'] then
    ([], ⟨[.message "Usage: browser URL\n\nFetch an HTTP or HTTPS page and render readable text.\nTLS uses the OS64 CA store, SNI, and hostname verification.\n"], 0, none⟩)
  else match argumentWord a with
    | none => ([], ⟨[], 2, none⟩)
    | some url => browserLoop network width 6 0 false (browserExpand url)

/-! ### `browser_fetch` -/

/-- What an application gets: the returned number, and the page with its size if
there is one. -/
structure Fetched where
  returned : Int32
  page : Option (List UInt8 × ℕ)

/-- The URL a redirect of `abi_browser_fetch` leads to. -/
def fetchTarget (request : Request) (location : List UInt8) : List UInt8 :=
  let url := if location.head? = some slash then
      copyTo (copyTo [] (if request.secure then https else http)) request.host
    else []
  copyTo url location

/-- The loop of `abi_browser_fetch`, with `left` rounds to go; `k` requests have been
made. -/
def fetchLoop (network : ℕ → Reply) (capacity : ℕ) : ℕ → ℕ → Bool → List UInt8 → List Exchange × Fetched
  | 0, _, _, _ => ([], ⟨-10, none⟩)
  | left + 1, k, wasSecure, url =>
    match parseUrl url with
    | none => ([], ⟨-8, none⟩)
    | some request =>
      if wasSecure ∧ ¬request.secure then ([], ⟨-9, none⟩)
      else if (network k).result ≠ 1 then
        ([⟨request, network k⟩],
          ⟨if request.secure then (network k).result else if (network k).result = -2 then -1 else -2, none⟩)
      else match redirectLocation (network k).output with
        | some location =>
          let (exchanges, fetched) :=
            fetchLoop network capacity left (k + 1) request.secure (fetchTarget request location)
          (⟨request, network k⟩ :: exchanges, fetched)
        | none => ([⟨request, network k⟩], ⟨1, some (browserRenderBuffer (network k).output capacity)⟩)

/-- `abi_browser_fetch`; a pointer that is null is `none`, and so are the other two
pointers if `pointers` is false. -/
def abiBrowserFetch (network : ℕ → Reply) (requested : Option (List UInt8)) (pointers : Bool) (capacity : ℕ) :
    List Exchange × Fetched :=
  match requested with
  | none => ([], ⟨-1, none⟩)
  | some requested =>
    if ¬pointers ∨ capacity = 0 then ([], ⟨-1, none⟩)
    else
      let url := if ¬starts requested http ∧ ¬starts requested https then copyTo [] https else []
      fetchLoop network capacity 6 0 false (copyTo url requested)

end OS64.Web
