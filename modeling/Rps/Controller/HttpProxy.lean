import Rps.Base.Text
import Rps.Controller.ProxyAuth

/-! The HTTP proxy port.

`read_header` reads until it has seen CRLF CRLF and returns everything it has read, so the
header it returns carries the bytes that came in with the end of the header section. All of
it is decoded, searched for credentials and for the host, stripped line by line and sent on;
for CONNECT it is dropped.

`segmentation_independent`: where the stream is cut makes no difference exactly if none of
that notices the bytes that may come in with the header section. They do, in the simplest
case, when a client sends the first bytes of its tunnel without waiting for the answer
(`connect_bytes_lost`). -/
namespace Rps.Controller
open Base

namespace HttpProxy

def maxHeader : Nat := 64 * 1024

/-- The size of the buffer the header is read into. -/
def readSize : Nat := 1024

/-- CRLF CRLF. -/
def headerEnd : Bytes := [13, 10, 13, 10]

/-- A window of the bytes is CRLF CRLF. -/
def hasHeaderEnd : Bytes → Bool
  | [] => false
  | b :: rest => headerEnd.isPrefixOf (b :: rest) || hasHeaderEnd rest

/-- What is read and what is left to read, from what the reads of the socket return. -/
def readHeader (header : Bytes) : List Bytes → Except String (Bytes × List Bytes)
  | [] => .error "connection closed before http header"
  | chunk :: rest =>
    let header := header ++ chunk
    if hasHeaderEnd header then .ok (header, rest)
    else if header.length > maxHeader then .error "http header too large"
    else readHeader header rest

/-- `str::split_whitespace`; the word being read is kept reversed. -/
def splitWhitespace (word : List Char) : List Char → List (List Char)
  | [] => if word = [] then [] else [word.reverse]
  | c :: rest =>
    if isWhitespace c then
      if word = [] then splitWhitespace [] rest else word.reverse :: splitWhitespace [] rest
    else splitWhitespace (c :: word) rest

structure RequestLine where
  method : List Char
  uri : List Char
  version : List Char

def requestLine (header : List Char) : RequestLine :=
  let parts := splitWhitespace [] ((splitCrlf [] header).headD [])
  ⟨parts.getD 0 [], parts.getD 1 [], parts.getD 2 "HTTP/1.1".toList⟩

/-- The authority and path of an absolute URI, and the default port of its scheme. -/
def stripScheme (uri : List Char) : Option (List Char × Nat) :=
  match "http://".toList.isPrefixOf? uri with
  | some rest => some (rest, 80)
  | none =>
    match "https://".toList.isPrefixOf? uri with
    | some rest => some (rest, 443)
    | none => none

def withDefaultPort (host : List Char) (port : Nat) : List Char :=
  if ':' ∈ host then host else host ++ [':'] ++ (toString port).toList

/-- The value of the first host line, in one of the two spellings the port knows. -/
def hostLine : List (List Char) → Option (List Char)
  | [] => none
  | line :: rest =>
    match "Host:".toList.isPrefixOf? line with
    | some host => some host
    | none =>
      match "host:".toList.isPrefixOf? line with
      | some host => some host
      | none => hostLine rest

def httpTarget (uri header : List Char) : Except String (List Char) :=
  match stripScheme uri with
  | some (rest, port) => .ok (withDefaultPort (rest.takeWhile (· ≠ '/')) port)
  | none =>
    match hostLine (lines [] header) with
    | some host => .ok (withDefaultPort (trim host) 80)
    | none => .error "http proxy target not found"

def isProxyAuthorization (line : List Char) : Bool :=
  match splitOnce ':' line with
  | some (name, _) => eqIgnoreAsciiCase name "Proxy-Authorization".toList
  | none => false

def keptLines (lines : List (List Char)) : List (List Char) := lines.filter fun line => !isProxyAuthorization line

@[simp] theorem keptLines_append (a b : List (List Char)) : keptLines (a ++ b) = keptLines a ++ keptLines b :=
  List.filter_append ..

def stripProxyHeaders (header : List Char) : List Char := joinCrlf (keptLines (splitCrlf [] header))

/-- The path of an absolute URI; any other URI is its own path. -/
def originPath (uri : List Char) : List Char :=
  let path :=
    match stripScheme uri with
    | some (rest, _) => rest.dropWhile (· ≠ '/')
    | none => uri
  if path = [] then ['/'] else path

def originLine (line : RequestLine) : List Char :=
  line.method ++ [' '] ++ originPath line.uri ++ [' '] ++ line.version

def rewriteAbsoluteForm (line : RequestLine) (header : List Char) : List Char :=
  originLine line ++ crlf ++ stripProxyHeaders ((afterCrlf header).getD crlf)

/-- What comes of a connection: it fails before anybody is asked for, it gets a 407, its
request has no target, or the target of an account is opened and receives bytes. -/
inductive Outcome where
  | failed (error : String)
  | unauthorized
  | unrouted (auth : HttpProxyAuth) (error : String)
  | opened (auth : HttpProxyAuth) (target : List Char) (received : Bytes)
  deriving DecidableEq

/-- With the header that was read and the bytes that are left to read. The pipe sends the
initial data, if there is any, and then everything that is left. -/
def serve (env : AuthEnv) (now : Int) (s : AuthState) (header unread : Bytes) : Outcome :=
  match fromUtf8 header with
  | .error error => .failed error
  | .ok text =>
    match (authenticatedRoute env now s text).1 with
    | none => .unauthorized
    | some auth =>
      let line := requestLine text.toList
      if eqIgnoreAsciiCase line.method "CONNECT".toList then .opened auth line.uri unread
      else
        match httpTarget line.uri text.toList with
        | .error error => .unrouted auth error
        | .ok target => .opened auth target (encode (rewriteAbsoluteForm line text.toList) ++ unread)

def handleHttpProxy (env : AuthEnv) (now : Int) (s : AuthState) (chunks : List Bytes) : Outcome :=
  match readHeader [] chunks with
  | .error error => .failed error
  | .ok (header, rest) => serve env now s header rest.flatten

/-! ### Streams and how they are read -/

/-- A header section: it is over at its first CRLF CRLF. -/
structure Section where
  head : Bytes
  ends : ∃ init, head = init ++ headerEnd
  first : hasHeaderEnd head.dropLast = false

/-- What a client sends: a header section the port has room for, and what is behind. -/
structure Request extends Section where
  rest : Bytes
  bounded : head.length ≤ maxHeader

/-- A way the reads of the socket may cut a stream. -/
structure Reads (stream : Bytes) where
  chunks : List Bytes
  nonempty : ∀ chunk ∈ chunks, chunk ≠ []
  bounded : ∀ chunk ∈ chunks, chunk.length ≤ readSize
  joined : chunks.flatten = stream

/-- The outcome the header section alone decides: for CONNECT the target receives what is
behind it, otherwise the rewritten header section and what is behind it. -/
def Request.intended (env : AuthEnv) (now : Int) (s : AuthState) (r : Request) : Outcome :=
  serve env now s r.head r.rest

theorem hasHeaderEnd_iff {bytes : Bytes} : hasHeaderEnd bytes = true ↔ headerEnd <:+: bytes := by
  induction bytes with
  | nil => simp [hasHeaderEnd, headerEnd]
  | cons b rest ih =>
    rw [hasHeaderEnd, Bool.or_eq_true, ih, List.isPrefixOf_iff_prefix, List.infix_cons_iff]

theorem Section.hasHeaderEnd (r : Section) (p : Bytes) : HttpProxy.hasHeaderEnd (r.head ++ p) = true := by
  obtain ⟨init, hinit⟩ := r.ends
  rw [hasHeaderEnd_iff, hinit]
  exact ⟨init, p, rfl⟩

theorem Section.head_ne_nil (r : Section) : r.head ≠ [] := by
  obtain ⟨init, hinit⟩ := r.ends
  rw [hinit]
  simp [headerEnd]

theorem Section.not_hasHeaderEnd (r : Section) {bytes : Bytes} (h : bytes <+: r.head)
    (hlt : bytes.length < r.head.length) : HttpProxy.hasHeaderEnd bytes = false := by
  have hpre : bytes <+: r.head.dropLast := by
    rw [← List.dropLast_append_getLast r.head_ne_nil] at h
    rcases List.prefix_concat_iff.mp (by simpa using h) with heq | hpre
    · have := congrArg List.length heq
      simp at this
      omega
    · exact hpre
  by_contra hend
  have hinfix := (hasHeaderEnd_iff.mp (Bool.eq_true_of_not_eq_false hend)).trans hpre.isInfix
  have := r.first
  rw [hasHeaderEnd_iff.mpr hinfix] at this
  cases this

/-! ### What is in the header that was read -/

section
variable (env : AuthEnv) (now : Int) (s : AuthState)

theorem readHeader_short (r : Section) {header chunk : Bytes} (h : header ++ chunk <+: r.head)
    (hlt : (header ++ chunk).length < r.head.length) (hlen : ¬ (header ++ chunk).length > maxHeader)
    (rest : List Bytes) : readHeader header (chunk :: rest) = readHeader (header ++ chunk) rest := by
  simp only [readHeader]
  rw [r.not_hasHeaderEnd h hlt, if_neg (by simp), if_neg hlen]

theorem readHeader_long (r : Section) {header chunk extra : Bytes} (h : header ++ chunk = r.head ++ extra)
    (rest : List Bytes) : readHeader header (chunk :: rest) = .ok (r.head ++ extra, rest) := by
  simp only [readHeader]
  rw [h, r.hasHeaderEnd extra, if_pos rfl]

/-- A header section that is read is read with fewer bytes of what is behind it than one read
holds; only one that is too large is not read. -/
theorem readHeader_extra (r : Section) {rest : Bytes} {chunks : List Bytes} {header : Bytes}
    (hbounded : ∀ chunk ∈ chunks, chunk.length ≤ readSize)
    (hjoined : header ++ chunks.flatten = r.head ++ rest) (hlt : header.length < r.head.length) :
    (maxHeader < r.head.length ∧ ∃ error, readHeader header chunks = .error error) ∨
      ∃ extra unread, readHeader header chunks = .ok (r.head ++ extra, unread) ∧
        extra ++ unread.flatten = rest ∧ extra.length < readSize := by
  induction chunks generalizing header with
  | nil =>
    have := congrArg List.length hjoined
    simp at this
    omega
  | cons chunk chunks ih =>
    have hpre : header ++ chunk <+: r.head ++ rest := ⟨chunks.flatten, by simpa using hjoined⟩
    by_cases hshort : (header ++ chunk).length < r.head.length
    · have hhead : header ++ chunk <+: r.head :=
        List.prefix_of_prefix_length_le hpre (List.prefix_append ..) (by omega)
      by_cases hlen : (header ++ chunk).length > maxHeader
      · refine .inl ⟨by omega, "http header too large", ?_⟩
        simp only [readHeader]
        rw [r.not_hasHeaderEnd hhead hshort, if_neg (by simp), if_pos hlen]
      · rw [readHeader_short r hhead hshort hlen]
        apply ih
        · intro c hc
          exact hbounded c (List.mem_cons_of_mem chunk hc)
        · simpa using hjoined
        · exact hshort
    · obtain ⟨extra, hextra⟩ : r.head <+: header ++ chunk :=
        List.prefix_of_prefix_length_le (List.prefix_append ..) hpre (by omega)
      refine .inr ⟨extra, chunks, readHeader_long r hextra.symm chunks, ?_, ?_⟩
      · rw [List.flatten_cons, ← List.append_assoc, ← hextra, List.append_assoc] at hjoined
        exact List.append_cancel_left hjoined
      · have hlen := congrArg List.length hextra
        have hchunk := hbounded chunk (List.mem_cons_self ..)
        simp only [List.length_append] at hlen
        omega

/-- Whatever the reads are, what is served is the header section and the next `k` bytes, for
some `k` that fits a read. -/
theorem handleHttpProxy_section (r : Section) {stream rest : Bytes} (hstream : stream = r.head ++ rest)
    (reads : Reads stream) :
    (maxHeader < r.head.length ∧ ∃ error, handleHttpProxy env now s reads.chunks = .failed error) ∨
      ∃ k < readSize, handleHttpProxy env now s reads.chunks =
        serve env now s (r.head ++ rest.take k) (rest.drop k) := by
  have hjoined : [] ++ reads.chunks.flatten = r.head ++ rest := reads.joined.trans hstream
  obtain ⟨hlen, error, hread⟩ | ⟨extra, unread, hread, hrest, hlt⟩ :=
    readHeader_extra r reads.bounded hjoined (List.length_pos_iff.mpr r.head_ne_nil)
  · refine .inl ⟨hlen, error, ?_⟩
    rw [handleHttpProxy, hread]
  · refine .inr ⟨extra.length, hlt, ?_⟩
    rw [← hrest, List.take_left, List.drop_left, handleHttpProxy, hread]

/-- A stream that is read byte by byte. -/
theorem readHeader_bytes (r : Request) {header bytes : Bytes} (h : header ++ bytes <+: r.head)
    (hlt : (header ++ bytes).length < r.head.length) (rest : List Bytes) :
    readHeader header (bytes.map ([·]) ++ rest) = readHeader (header ++ bytes) rest := by
  induction bytes generalizing header with
  | nil => simp
  | cons b bytes ih =>
    have hsplit : header ++ b :: bytes = header ++ [b] ++ bytes := by simp
    rw [hsplit] at h hlt ⊢
    have hshort : (header ++ [b]).length < r.head.length := by
      rw [List.length_append] at hlt
      omega
    have hlen : ¬ (header ++ [b]).length > maxHeader := by
      have := r.bounded
      omega
    rw [List.map_cons, List.cons_append, readHeader_short r.toSection ((List.prefix_append ..).trans h) hshort hlen]
    exact ih h hlt

/-- The reads that bring the next `k` bytes in with the end of the header section. -/
def Request.reads (r : Request) (k : Nat) (hk : k < readSize) : Reads (r.head ++ r.rest) where
  chunks := r.head.dropLast.map ([·]) ++ (r.head.getLast r.head_ne_nil :: r.rest.take k) :: (r.rest.drop k).map ([·])
  nonempty := by
    intro chunk hchunk
    simp only [List.mem_append, List.mem_map, List.mem_cons] at hchunk
    rcases hchunk with ⟨b, -, rfl⟩ | rfl | ⟨b, -, rfl⟩ <;> simp
  bounded := by
    intro chunk hchunk
    simp only [List.mem_append, List.mem_map, List.mem_cons] at hchunk
    rcases hchunk with ⟨b, -, rfl⟩ | rfl | ⟨b, -, rfl⟩
    · simp [readSize]
    · simp only [List.length_cons, List.length_take]
      omega
    · simp [readSize]
  joined := by
    have hbytes : ∀ bytes : Bytes, (bytes.map ([·])).flatten = bytes := List.flatMap_singleton'
    rw [List.flatten_append, List.flatten_cons, hbytes, hbytes, List.cons_append, List.take_append_drop,
      List.append_cons, List.dropLast_append_getLast]

theorem handleHttpProxy_reads (r : Request) (k : Nat) (hk : k < readSize) :
    handleHttpProxy env now s (r.reads k hk).chunks =
      serve env now s (r.head ++ r.rest.take k) (r.rest.drop k) := by
  have hbytes : ((r.rest.drop k).map ([·])).flatten = r.rest.drop k := List.flatMap_singleton' _
  have hhead : r.head.dropLast ++ [r.head.getLast r.head_ne_nil] = r.head := List.dropLast_append_getLast _
  have hlast : r.head.dropLast ++ (r.head.getLast r.head_ne_nil :: r.rest.take k) = r.head ++ r.rest.take k := by
    rw [List.append_cons, hhead]
  have hread : readHeader [] (r.reads k hk).chunks =
      .ok (r.head ++ r.rest.take k, (r.rest.drop k).map ([·])) := by
    have hlt : r.head.dropLast.length < r.head.length := by
      rw [List.length_dropLast]
      have := List.length_pos_iff.mpr r.head_ne_nil
      omega
    rw [Request.reads, readHeader_bytes r (List.dropLast_prefix _) hlt]
    exact readHeader_long r.toSection hlast _
  rw [handleHttpProxy, hread]
  simp only
  rw [hbytes]

/-- Of a header section the port has room for, every `k` is served. -/
theorem forall_reads (r : Request) {stream : Bytes} (hstream : stream = r.head ++ r.rest) {P : Outcome → Prop} :
    (∀ reads : Reads stream, P (handleHttpProxy env now s reads.chunks)) ↔
      ∀ k < readSize, P (serve env now s (r.head ++ r.rest.take k) (r.rest.drop k)) := by
  constructor
  · intro h k hk
    subst hstream
    rw [← handleHttpProxy_reads env now s r k hk]
    exact h _
  · intro h reads
    obtain ⟨hlen, -⟩ | ⟨k, hk, hserve⟩ := handleHttpProxy_section env now s r.toSection hstream reads
    · have := r.bounded
      omega
    · rw [hserve]
      exact h k hk

/-! ### What notices the bytes behind the header section -/

theorem fromUtf8_encode (text : List Char) : fromUtf8 (encode text) = .ok (String.ofList text) := by
  rw [fromUtf8, fromUTF8_eq_some.mpr (by rw [String.toList_ofList])]

theorem fromUtf8_error {bytes : Bytes} (h : ∀ text, bytes ≠ encode text) :
    fromUtf8 bytes = .error "invalid utf-8 sequence" := by
  unfold fromUtf8
  split
  · rename_i s hs
    exact absurd (fromUTF8_eq_some.mp hs) (h s.toList)
  · rfl

/-- The text of a header section ends with an empty line. -/
theorem Section.text (r : Section) {text : List Char} (h : r.head = encode text) :
    ∃ init, text = init ++ crlf ++ crlf := by
  obtain ⟨init, hinit⟩ := r.ends
  obtain ⟨t₁, t₂, rfl, -, ht⟩ := encode_split (hinit.symm.trans h) (.inr (by simp [headerEnd]))
  have hend : encode (crlf ++ crlf) = headerEnd := by decide
  have := encode_injective (hend.trans ht)
  exact ⟨t₁, by simp [← this]⟩

theorem lines_append (line a b : List Char) :
    lines line (a ++ '\n' :: b) = lines line (a ++ ['\n']) ++ lines [] b := by
  induction a generalizing line with
  | nil => simp [lines]
  | cons c a ih =>
    by_cases hc : c = '\n'
    · subst hc
      simp only [List.cons_append, lines, if_true]
      rw [ih]
    · simp only [List.cons_append, lines, if_neg hc]
      exact ih _

theorem lines_text (init extra : List Char) :
    lines [] (init ++ crlf ++ crlf ++ extra) = lines [] (init ++ crlf ++ crlf) ++ lines [] extra := by
  have h : ∀ b, init ++ crlf ++ crlf ++ b = (init ++ crlf ++ ['\r']) ++ '\n' :: b := by simp [crlf]
  have hnil := h []
  rw [List.append_nil] at hnil
  rw [h, hnil, lines_append]

theorem proxyAuthLine_cons (line : List Char) :
    (isProxyAuthorization line = false ∧ ∀ rest, proxyAuthLine env (line :: rest) = proxyAuthLine env rest) ∨
      (isProxyAuthorization line = true ∧ ∃ c, ∀ rest, proxyAuthLine env (line :: rest) = c) := by
  unfold isProxyAuthorization
  cases hfield : splitOnce ':' line with
  | none => exact .inl ⟨rfl, fun rest => by rw [proxyAuthLine, hfield]⟩
  | some field =>
    cases hname : eqIgnoreAsciiCase field.1 "Proxy-Authorization".toList with
    | false =>
      refine .inl ⟨hname, fun rest => ?_⟩
      simp only [proxyAuthLine, hfield, hname]
      rfl
    | true =>
      refine .inr ⟨hname, basicCredentials env field.2, fun rest => ?_⟩
      simp only [proxyAuthLine, hfield, hname]
      rfl

theorem proxyAuthLine_skip {a : List (List Char)} (h : ∀ line ∈ a, isProxyAuthorization line = false)
    (b : List (List Char)) : proxyAuthLine env (a ++ b) = proxyAuthLine env b := by
  induction a with
  | nil => rfl
  | cons line a ih =>
    obtain ⟨-, hskip⟩ | ⟨hline, -⟩ := proxyAuthLine_cons env line
    · rw [List.cons_append, hskip]
      exact ih fun l hl => h l (List.mem_cons_of_mem line hl)
    · rw [h line (List.mem_cons_self ..)] at hline
      cases hline

/-- The first authorization decides. -/
theorem proxyAuthLine_first {a : List (List Char)} (h : ∃ line ∈ a, isProxyAuthorization line = true)
    (b : List (List Char)) : proxyAuthLine env (a ++ b) = proxyAuthLine env a := by
  induction a with
  | nil => simp at h
  | cons line a ih =>
    obtain ⟨hline, hskip⟩ | ⟨-, c, hfirst⟩ := proxyAuthLine_cons env line
    · rw [List.cons_append, hskip, hskip]
      apply ih
      obtain ⟨l, hl, hauth⟩ := h
      rcases List.mem_cons.mp hl with rfl | hl
      · rw [hline] at hauth
        cases hauth
      · exact ⟨l, hl, hauth⟩
    · rw [List.cons_append, hfirst, hfirst]

/-- The first host decides. -/
theorem hostLine_append (a b : List (List Char)) : hostLine (a ++ b) = (hostLine a).or (hostLine b) := by
  induction a with
  | nil => rfl
  | cons line a ih =>
    simp only [List.cons_append, hostLine]
    cases "Host:".toList.isPrefixOf? line with
    | some host => rfl
    | none =>
      cases "host:".toList.isPrefixOf? line with
      | some host => rfl
      | none => exact ih

/-- The request line is over at the first CRLF. -/
theorem requestLine_append (init extra : List Char) : requestLine (init ++ crlf ++ extra) = requestLine init := by
  have hfirst : (splitCrlf [] (init ++ crlf ++ extra)).headD [] = (splitCrlf [] init).headD [] := by
    obtain ⟨first, rest, hlines⟩ := List.exists_cons_of_ne_nil (splitCrlf_ne_nil [] init)
    rw [splitCrlf_append, hlines]
    rfl
  rw [requestLine, requestLine, hfirst]

/-- A header section with an authorization is judged by it, -/
theorem authenticatedRoute_first {init : List Char}
    (h : ∃ line ∈ lines [] (init ++ crlf ++ crlf), isProxyAuthorization line = true) (extra : List Char) :
    authenticatedRoute env now s (String.ofList (init ++ crlf ++ crlf ++ extra)) =
      authenticatedRoute env now s (String.ofList (init ++ crlf ++ crlf)) := by
  have hparse : parseBasicProxyAuth env (String.ofList (init ++ crlf ++ crlf ++ extra)) =
      parseBasicProxyAuth env (String.ofList (init ++ crlf ++ crlf)) := by
    unfold parseBasicProxyAuth
    rw [String.toList_ofList, String.toList_ofList, lines_text]
    exact proxyAuthLine_first env h _
  rw [authenticatedRoute, authenticatedRoute, hparse]

/-- and any other by what is behind it. -/
theorem authenticatedRoute_skip {init : List Char}
    (h : ¬ ∃ line ∈ lines [] (init ++ crlf ++ crlf), isProxyAuthorization line = true) (extra : List Char) :
    authenticatedRoute env now s (String.ofList (init ++ crlf ++ crlf ++ extra)) =
      authenticatedRoute env now s (String.ofList extra) := by
  have hparse : parseBasicProxyAuth env (String.ofList (init ++ crlf ++ crlf ++ extra)) =
      parseBasicProxyAuth env (String.ofList extra) := by
    unfold parseBasicProxyAuth
    rw [String.toList_ofList, String.toList_ofList, lines_text]
    exact proxyAuthLine_skip env (by simpa using h) _
  rw [authenticatedRoute, authenticatedRoute, hparse]

/-- A header section that is taken is taken with anything behind it. -/
theorem authenticatedRoute_some {init : List Char} {auth : HttpProxyAuth}
    (h : (authenticatedRoute env now s (String.ofList (init ++ crlf ++ crlf))).1 = some auth) (extra : List Char) :
    (authenticatedRoute env now s (String.ofList (init ++ crlf ++ crlf ++ extra))).1 = some auth := by
  by_cases hauth : ∃ line ∈ lines [] (init ++ crlf ++ crlf), isProxyAuthorization line = true
  · rw [authenticatedRoute_first env now s hauth, h]
  · have hnil := authenticatedRoute_skip env now s hauth []
    rw [List.append_nil] at hnil
    rw [hnil] at h
    rw [authenticatedRoute_skip env now s hauth]
    cases hclosed : s.db.hasEnabledProxyAccounts .http with
    | false =>
      simp only [authenticatedRoute, hclosed] at h ⊢
      exact h
    | true =>
      -- a closed port takes nobody without an authorization
      have hparse : parseBasicProxyAuth env (String.ofList []) = none := by
        rw [parseBasicProxyAuth, String.toList_ofList]
        rfl
      simp only [authenticatedRoute, hclosed, hparse] at h
      cases h

/-- A header section that is refused is refused with `extra` behind it if it carries an
authorization of its own, or if `extra` is refused. -/
theorem authenticatedRoute_none {init : List Char}
    (h : (authenticatedRoute env now s (String.ofList (init ++ crlf ++ crlf))).1 = none) (extra : List Char) :
    (authenticatedRoute env now s (String.ofList (init ++ crlf ++ crlf ++ extra))).1 = none ↔
      (∃ line ∈ lines [] (init ++ crlf ++ crlf), isProxyAuthorization line = true) ∨
        (authenticatedRoute env now s (String.ofList extra)).1 = none := by
  by_cases hauth : ∃ line ∈ lines [] (init ++ crlf ++ crlf), isProxyAuthorization line = true
  · rw [authenticatedRoute_first env now s hauth]
    exact ⟨fun _ => .inl hauth, fun _ => h⟩
  · rw [or_iff_right hauth, authenticatedRoute_skip env now s hauth]

theorem splitCrlf_nil : splitCrlf [] [] = [[]] := rfl

/-- The lines that are kept of a text with `extra` behind a CRLF. -/
theorem stripProxyHeaders_eq (a extra : List Char) :
    stripProxyHeaders (a ++ crlf ++ extra) =
      joinCrlf (keptLines (splitCrlf [] a) ++ keptLines (splitCrlf [] extra)) := by
  rw [stripProxyHeaders, splitCrlf_append, keptLines_append]

theorem stripProxyHeaders_nil (a : List Char) :
    stripProxyHeaders (a ++ crlf) = joinCrlf (keptLines (splitCrlf [] a) ++ [[]]) := by
  have h := stripProxyHeaders_eq a []
  rwa [List.append_nil] at h

/-- Without an authorization in `extra` it is passed on as it is. -/
theorem stripProxyHeaders_append (a : List Char) {extra : List Char}
    (h : ∀ line ∈ splitCrlf [] extra, isProxyAuthorization line = false) :
    stripProxyHeaders (a ++ crlf ++ extra) = stripProxyHeaders (a ++ crlf) ++ extra := by
  have hextra : keptLines (splitCrlf [] extra) = splitCrlf [] extra :=
    List.filter_eq_self.mpr fun line hline => by rw [h line hline]; rfl
  have hjoin : joinCrlf (splitCrlf [] extra) = extra := by simpa using joinCrlf_splitCrlf [] extra
  rw [stripProxyHeaders_eq, stripProxyHeaders_nil, hextra]
  by_cases hkept : keptLines (splitCrlf [] a) = []
  · rw [hkept, List.nil_append, List.nil_append, hjoin]
    rfl
  · rw [joinCrlf_append hkept (splitCrlf_ne_nil [] extra), joinCrlf_append hkept (by simp), hjoin]
    simp [joinCrlf]

/-- With an authorization in `extra` bytes are missing. -/
theorem stripProxyHeaders_lt (a : List Char) {extra : List Char}
    (h : ∃ line ∈ splitCrlf [] extra, isProxyAuthorization line = true) :
    (encode (stripProxyHeaders (a ++ crlf ++ extra))).length <
      (encode (stripProxyHeaders (a ++ crlf))).length + (encode extra).length := by
  have hfewer : linesSize (keptLines (splitCrlf [] extra)) < linesSize (splitCrlf [] extra) := by
    obtain ⟨line, hline, hauth⟩ := h
    exact linesSize_filter_lt ⟨line, hline, by rw [hauth]; rfl⟩
  have hextra : (encode extra).length + 2 = linesSize (splitCrlf [] extra) := by
    rw [← joinCrlf_size (splitCrlf_ne_nil [] extra), joinCrlf_splitCrlf]
    rfl
  have hpos : 0 < (encode extra).length := by
    rw [List.length_pos_iff, Ne, encode_eq_nil]
    rintro rfl
    simp [splitCrlf_nil, isProxyAuthorization, splitOnce] at h
  rw [stripProxyHeaders_eq, stripProxyHeaders_nil]
  generalize keptLines (splitCrlf [] a) = kept
  generalize keptLines (splitCrlf [] extra) = more at hfewer
  have hnil : (encode (joinCrlf (kept ++ [[]]))).length + 2 = linesSize (kept ++ [[]]) := joinCrlf_size (by simp)
  by_cases hnone : kept ++ more = []
  · rw [hnone]
    simp only [joinCrlf, encode_nil, List.length_nil]
    omega
  · have hsize := joinCrlf_size hnone
    rw [linesSize_append] at hsize hnil
    have hempty : linesSize [[]] = 2 := rfl
    omega

/-- The rewritten header of a header section with `extra` behind it is a first line and the
lines that are kept. -/
theorem rewriteAbsoluteForm_append (line : RequestLine) (init : List Char) :
    ∃ a, ∀ extra, rewriteAbsoluteForm line (init ++ crlf ++ crlf ++ extra) =
      originLine line ++ crlf ++ stripProxyHeaders (a ++ crlf ++ extra) := by
  obtain ⟨a, ha⟩ := Option.isSome_iff_exists.mp (afterCrlf_isSome init [])
  rw [List.append_nil] at ha
  refine ⟨a, fun extra => ?_⟩
  rw [rewriteAbsoluteForm, List.append_assoc (init ++ crlf), afterCrlf_append ha, Option.getD_some,
    ← List.append_assoc a]

/-- The rewritten header of a header section, and `extra`. -/
theorem rewriteAbsoluteForm_iff (line : RequestLine) (init extra : List Char) (unread : Bytes) :
    encode (rewriteAbsoluteForm line (init ++ crlf ++ crlf ++ extra)) ++ unread =
        encode (rewriteAbsoluteForm line (init ++ crlf ++ crlf)) ++ (encode extra ++ unread) ↔
      ∀ l ∈ splitCrlf [] extra, isProxyAuthorization l = false := by
  obtain ⟨a, hrewrite⟩ := rewriteAbsoluteForm_append line init
  have hnil := hrewrite []
  rw [List.append_nil, List.append_nil] at hnil
  rw [hrewrite, hnil]
  constructor
  · intro heq
    by_contra hauth
    have hex : ∃ l ∈ splitCrlf [] extra, isProxyAuthorization l = true := by simpa using hauth
    have hlt := stripProxyHeaders_lt a hex
    have hlen := congrArg List.length heq
    simp only [encode_append, List.length_append] at hlen hlt
    omega
  · intro hnone
    rw [stripProxyHeaders_append a hnone]
    simp

/-- What is behind the header section `text` and comes in with it goes unnoticed. -/
def Unnoticed (text extra : List Char) : Prop :=
  match (authenticatedRoute env now s (String.ofList text)).1 with
  | none =>
    (∃ line ∈ lines [] text, isProxyAuthorization line = true) ∨
      (authenticatedRoute env now s (String.ofList extra)).1 = none
  | some _ =>
    if eqIgnoreAsciiCase (requestLine text).method "CONNECT".toList then extra = []
    else
      match httpTarget (requestLine text).uri text with
      | .error _ => hostLine (lines [] extra) = none
      | .ok _ => ∀ line ∈ splitCrlf [] extra, isProxyAuthorization line = false

theorem httpTarget_append (uri init extra : List Char) :
    httpTarget uri (init ++ crlf ++ crlf ++ extra) =
      match httpTarget uri (init ++ crlf ++ crlf) with
      | .ok target => .ok target
      | .error error =>
        match hostLine (lines [] extra) with
        | some host => .ok (withDefaultPort (trim host) 80)
        | none => .error error := by
  unfold httpTarget
  cases stripScheme uri with
  | some rest => rfl
  | none =>
    simp only [lines_text, hostLine_append]
    cases hostLine (lines [] (init ++ crlf ++ crlf)) with
    | some host => rfl
    | none => cases hostLine (lines [] extra) <;> rfl

/-- What comes in with a header section changes nothing exactly if it goes unnoticed. -/
theorem serve_iff (init extra : List Char) (unread : Bytes) :
    serve env now s (encode (init ++ crlf ++ crlf) ++ encode extra) unread =
        serve env now s (encode (init ++ crlf ++ crlf)) (encode extra ++ unread) ↔
      Unnoticed env now s (init ++ crlf ++ crlf) extra := by
  have hline : requestLine (init ++ crlf ++ crlf ++ extra) = requestLine (init ++ crlf ++ crlf) := by
    have hnil := requestLine_append (init ++ crlf) []
    rw [List.append_nil] at hnil
    rw [requestLine_append, hnil]
  rw [← encode_append, serve, serve, fromUtf8_encode, fromUtf8_encode]
  simp only [String.toList_ofList, hline]
  unfold Unnoticed
  cases hauth : (authenticatedRoute env now s (String.ofList (init ++ crlf ++ crlf))).1 with
  | none =>
    rw [← authenticatedRoute_none env now s hauth]
    cases (authenticatedRoute env now s (String.ofList (init ++ crlf ++ crlf ++ extra))).1 with
    | none => simp
    | some auth =>
      constructor
      · intro h
        simp only at h
        split at h
        · cases h
        · split at h <;> cases h
      · intro h
        cases h
  | some auth =>
    rw [authenticatedRoute_some env now s hauth]
    simp only
    cases eqIgnoreAsciiCase (requestLine (init ++ crlf ++ crlf)).method "CONNECT".toList with
    | true =>
      simp only [if_true, Outcome.opened.injEq, true_and]
      rw [List.self_eq_append_left, encode_eq_nil]
    | false =>
      simp only [Bool.false_eq_true, if_false, httpTarget_append]
      cases httpTarget (requestLine (init ++ crlf ++ crlf)).uri (init ++ crlf ++ crlf) with
      | error error => cases hostLine (lines [] extra) <;> simp
      | ok target => simpa using rewriteAbsoluteForm_iff _ init extra unread

/-- The bytes that may come in with the header section are ASCII and go unnoticed, however
many they are. -/
def Robust (r : Request) : Prop :=
  ∀ text, r.head = encode text → ∀ k < readSize,
    (∀ b ∈ r.rest.take k, b.toNat < 128) ∧ Unnoticed env now s text (ascii (r.rest.take k))

theorem Section.getLast_ascii (r : Section) : ∀ x ∈ r.head.getLast?, x.toNat < 128 := by
  obtain ⟨init, hinit⟩ := r.ends
  simp [hinit, headerEnd]

/-- A header section that is no text is no text with anything behind it. -/
theorem serve_not_text (r : Section) (h : ∀ text, r.head ≠ encode text)
    (extra unread : Bytes) :
    serve env now s (r.head ++ extra) unread = .failed "invalid utf-8 sequence" := by
  have hbytes : ∀ text, r.head ++ extra ≠ encode text := by
    intro text htext
    obtain ⟨t₁, t₂, -, hhead, -⟩ := encode_split htext (.inl r.getLast_ascii)
    exact h t₁ hhead
  rw [serve, fromUtf8_error hbytes]

/-- What is served like a text is a text. -/
theorem decodes_of_serve {bytes unread head rest : Bytes} {text : List Char}
    (hhead : head = encode text) (h : serve env now s bytes unread = serve env now s head rest) :
    ∃ text, bytes = encode text := by
  by_contra hnot
  push Not at hnot
  rw [hhead, serve, serve, fromUtf8_error hnot, fromUtf8_encode] at h
  simp only at h
  split at h
  · cases h
  · split at h
    · cases h
    · split at h <;> cases h

/-- **Where the stream is cut makes no difference exactly if nothing notices the bytes that
may come in with the header section.** Otherwise the port decides differently, opens another
target or sends other bytes for some way of cutting. -/
theorem segmentation_independent (r : Request) :
    (∀ reads : Reads (r.head ++ r.rest), handleHttpProxy env now s reads.chunks = r.intended env now s) ↔
      Robust env now s r := by
  rw [forall_reads env now s r rfl (P := (· = r.intended env now s))]
  by_cases htext : ∃ text, r.head = encode text
  · obtain ⟨text, htext⟩ := htext
    obtain ⟨init, rfl⟩ := r.text htext
    constructor
    · intro h text htext' k hk
      obtain rfl := encode_injective (htext.symm.trans htext')
      have hascii := ascii_of_decodes r.getLast_ascii (fun k hk => decodes_of_serve env now s htext (h k hk)) k hk
      refine ⟨hascii, (serve_iff env now s init (ascii (r.rest.take k)) (r.rest.drop k)).mp ?_⟩
      rw [encode_ascii hascii, List.take_append_drop, ← htext]
      exact h k hk
    · intro hrobust k hk
      obtain ⟨hascii, hunnoticed⟩ := hrobust _ htext k hk
      have := (serve_iff env now s init (ascii (r.rest.take k)) (r.rest.drop k)).mpr hunnoticed
      rwa [encode_ascii hascii, List.take_append_drop, ← htext] at this
  · have hnot : ∀ text, r.head ≠ encode text := fun text ht => htext ⟨text, ht⟩
    constructor
    · intro _ text ht
      exact absurd ht (hnot text)
    · intro _ k _
      have hhead := serve_not_text env now s r.toSection hnot [] r.rest
      rw [List.append_nil] at hhead
      rw [Request.intended, serve_not_text env now s r.toSection hnot, hhead]

end

/-! ### The first bytes of a tunnel -/

/-- A port without accounts. -/
def openState : AuthState := ⟨sampleAccounts [] (by decide), {}⟩

/-- A tunnel to `a:1` and the first byte of what goes through it. -/
def tunnelRequest : Request where
  head := encode ("CONNECT a:1 HTTP/1.1".toList ++ crlf ++ crlf)
  rest := encode "X".toList
  ends := ⟨encode "CONNECT a:1 HTTP/1.1".toList, by decide +kernel⟩
  first := by decide +kernel
  bounded := by decide +kernel

/-- A port without accounts opens the tunnel. The byte reaches the target if it comes in
after the header section and is lost if it comes in with it. -/
theorem connect_bytes_lost :
    ¬ ∀ (env : AuthEnv) (now : Int) (s : AuthState) (r : Request) (a b : Reads (r.head ++ r.rest)),
      handleHttpProxy env now s a.chunks = handleHttpProxy env now s b.chunks := by
  intro h
  have hcut := h sampleEnv 0 openState tunnelRequest
    (tunnelRequest.reads 1 (by decide)) (tunnelRequest.reads 0 (by decide))
  rw [handleHttpProxy_reads, handleHttpProxy_reads] at hcut
  have hunnoticed := (serve_iff sampleEnv 0 openState "CONNECT a:1 HTTP/1.1".toList
    "X".toList []).mp hcut
  have hconnect : eqIgnoreAsciiCase (requestLine ("CONNECT a:1 HTTP/1.1".toList ++ crlf ++ crlf)).method
      "CONNECT".toList = true := by decide +kernel
  rw [Unnoticed] at hunnoticed
  simp only [hconnect] at hunnoticed
  cases hunnoticed

end HttpProxy

end Rps.Controller
