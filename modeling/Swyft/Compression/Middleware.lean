import Swyft.JsNumber
import Mathlib.Data.List.Infix
import Mathlib.Logic.Function.Basic

/-!
# The compression of responses

`CompressionMiddleware` of `apps/api/src/compression.middleware.ts`. Where it takes part in a
request it puts its own `write` and `end` in place of those of the response: chunks are collected,
and at the end they are compressed, or sent as they are for one of several reasons. Once more is
collected than `maxBufferBytes` allows, the original methods are put back and what was collected is
sent.

The compressors, the encodings of texts and `vary` are of the platform and are parameters. What the
original methods are asked to do is kept as a list of calls. A request is answered in this order:
the handler writes and sets headers, it ends the response, it may still set headers, and the
compressor answers.

## Main definitions

* `CompressionConfig`, `resolveCompressionConfig` — the configuration, and where it is read from
* `negotiateEncoding`, `isCompressible`, `skipReason` — whether a body is compressed
* `Exchange` — a response and the variables of the middleware
* `use`, `Exchange.write`, `Exchange.finish`, `Exchange.answer` — the middleware
* `run` — a request from beginning to end
* `bodyOf` — the chunks of a request together

## Main results

* `resolveCompressionConfig_valid` — every setting is in its range
-/

namespace Swyft.Compression

open Js

abbrev Buffer := List UInt8

/-- A function that the handler passes, told from others. -/
abbrev Callback := ℕ

/-! ### The configuration -/

structure CompressionConfig where
  enabled : Bool
  level : ℕ
  minBytes : ℕ
  maxBufferBytes : ℕ
  excludedPathPrefixes : List String

/-- `COMPRESSION_DEFAULTS`. -/
def compressionDefaults : CompressionConfig where
  enabled := true
  level := 6
  minBytes := 1024
  maxBufferBytes := 5 * 1024 * 1024
  excludedPathPrefixes := ["/health", "/auth", "/v1/auth"]

/-- `toLowerCase`; what is compared with the result is in ASCII. -/
def lower (cs : List Char) : List Char := cs.map Char.toLower

/-- `intInRange`. -/
def intInRange (raw : Option String) (lo hi fallback : ℕ) : ℕ :=
  match raw with
  | none => fallback
  | some text =>
    if trim text.toList = [] then fallback
    else
      match toNumber text with
      | .finite q => if q.den = 1 ∧ lo ≤ q ∧ q ≤ hi then q.num.toNat else fallback
      | _ => fallback

/-- `resolveCompressionConfig`. -/
def resolveCompressionConfig (env : String → Option String) : CompressionConfig where
  enabled := (env "COMPRESSION_ENABLED").map (fun t => lower (trim t.toList)) ≠ some "false".toList
  level := intInRange (env "COMPRESSION_LEVEL") 1 9 compressionDefaults.level
  minBytes := intInRange (env "COMPRESSION_MIN_BYTES") 0 compressionDefaults.maxBufferBytes
    compressionDefaults.minBytes
  maxBufferBytes := intInRange (env "COMPRESSION_MAX_BUFFER_BYTES") 1024 (64 * 1024 * 1024)
    compressionDefaults.maxBufferBytes
  excludedPathPrefixes := compressionDefaults.excludedPathPrefixes ++
    ((((env "COMPRESSION_EXCLUDED_PATHS").getD "").toList.splitOn ',').map trim |>.filter
      fun p => ['/'].isPrefixOf p).map String.ofList

theorem intInRange_mem {lo hi fallback : ℕ} (raw : Option String)
    (h : lo ≤ fallback ∧ fallback ≤ hi) :
    lo ≤ intInRange raw lo hi fallback ∧ intInRange raw lo hi fallback ≤ hi := by
  unfold intInRange
  split
  · exact h
  split
  · exact h
  split
  · split
    next q _ hq =>
      obtain ⟨hden, hlo, hhi⟩ := hq
      have hnum : ((q.num : ℤ) : ℚ) = q := Rat.coe_int_num_of_den_eq_one hden
      rw [← hnum] at hlo hhi
      have hlo' : (lo : ℤ) ≤ q.num := by exact_mod_cast hlo
      have hhi' : q.num ≤ (hi : ℤ) := by exact_mod_cast hhi
      omega
    · exact h
  · exact h

/-- What every configuration keeps to, whatever the environment is. -/
structure CompressionConfig.Valid (config : CompressionConfig) : Prop where
  /-- The compressors accept the level. -/
  level : 1 ≤ config.level ∧ config.level ≤ 9
  minBytes : config.minBytes ≤ compressionDefaults.maxBufferBytes
  maxBufferBytes : 1024 ≤ config.maxBufferBytes ∧ config.maxBufferBytes ≤ 64 * 1024 * 1024
  /-- No default prefix is removed. -/
  excluded : compressionDefaults.excludedPathPrefixes <+: config.excludedPathPrefixes

theorem compressionDefaults_valid : compressionDefaults.Valid :=
  ⟨by decide, by decide, by decide, List.prefix_rfl⟩

theorem resolveCompressionConfig_valid (env : String → Option String) :
    (resolveCompressionConfig env).Valid where
  level := intInRange_mem _ compressionDefaults_valid.level
  minBytes := (intInRange_mem _ ⟨Nat.zero_le _, by decide⟩).2
  maxBufferBytes := intInRange_mem _ compressionDefaults_valid.maxBufferBytes
  excluded := List.prefix_append _ _

/-! ### Headers -/

/-- The headers that are read or set. -/
inductive HeaderName where
  | contentEncoding
  | cacheControl
  | contentType
  | contentLength
  | vary
  deriving DecidableEq

inductive HeaderValue where
  | text (s : String)
  | number (n : ℕ)
  | texts (l : List String)
  deriving DecidableEq

/-- `headerString`. -/
def headerString : Option HeaderValue → Option String
  | some (.texts l) => l.head?
  | some (.text s) => some s
  | some (.number n) => some (toString n)
  | none => none

/-- The status and the headers of a response, until they are sent. -/
structure Head where
  statusCode : ℕ
  headersSent : Bool
  headers : HeaderName → Option HeaderValue

/-- The headers of a request that are read. -/
structure Request where
  method : String
  path : Option String
  upgrade : Option String
  acceptEncoding : Option HeaderValue

/-! ### Whether a body is compressed -/

inductive CompressionEncoding where
  | br
  | gzip
  deriving DecidableEq, Repr

def CompressionEncoding.name : CompressionEncoding → String
  | .br => "br"
  | .gzip => "gzip"

/-- The weight after one parameter of an entry. -/
def paramWeight (weight : ℚ) (param : List Char) : ℚ :=
  match (trim param).splitOn '=' with
  | ['q'] :: v :: _ =>
    match toNumber (String.ofList v) with
    | .finite parsed => min (max parsed 0) 1
    | _ => 0
  | [['q']] => 0
  | _ => weight

/-- The weights after one entry of `Accept-Encoding`. -/
def entryWeight (q : List Char → Option ℚ) (entry : List Char) : List Char → Option ℚ :=
  match (lower (trim entry)).splitOn ';' with
  | [] | [] :: _ => q
  | name :: params => Function.update q name (some (params.foldl paramWeight 1))

/-- `negotiateEncoding`. -/
def negotiateEncoding (header : Option HeaderValue) : Option CompressionEncoding :=
  let raw := match header with
    | some (.texts l) => ",".intercalate l
    | some (.text s) => s
    | _ => ""
  let entries := ((raw.toList.take 1024).splitOn ',').take 32
  let q := entries.foldl entryWeight fun _ => none
  let weightOf (name : CompressionEncoding) : ℚ := ((q name.name.toList).or (q ['*'])).getD 0
  let br := weightOf .br
  let gz := weightOf .gzip
  if br ≤ 0 ∧ gz ≤ 0 then none
  else if gz ≤ br then some .br else some .gzip

/-- `isCompressible`. -/
def isCompressible (contentType : Option String) : Bool :=
  match contentType with
  | none | some "" => false
  | some contentType =>
    let type := lower (trim ((contentType.toList.splitOn ';').headD []))
    if type = "text/event-stream".toList then false
    else
      "text/".toList.isPrefixOf type || type = "application/json".toList ||
        "+json".toList.isSuffixOf type || type = "application/javascript".toList ||
        type = "application/xml".toList || "+xml".toList.isSuffixOf type ||
        type = "image/svg+xml".toList

/-- `/(^|,)\s*no-transform\s*(,|$)/i`: one of what stands between commas is `no-transform`. -/
def noTransform (cacheControl : String) : Bool :=
  (cacheControl.toList.splitOn ',').any fun piece => lower (trim piece) = "no-transform".toList

inductive CompressionOutcome where
  | compressedBr
  | compressedGzip
  | skippedDisabled
  | skippedExcluded
  | skippedNotAccepted
  | skippedSmall
  | skippedType
  | skippedEncoded
  | skippedNoTransform
  | skippedNoBody
  | skippedOversize
  | errorFallback
  deriving DecidableEq, Repr

/-- `skipReason`. -/
def skipReason (config : CompressionConfig) (res : Head) (body : Buffer) :
    Option CompressionOutcome :=
  let contentEncoding := (headerString (res.headers .contentEncoding)).getD ""
  let cacheControl := (headerString (res.headers .cacheControl)).getD ""
  if body.length = 0 ∨ res.statusCode = 204 ∨ res.statusCode = 304 ∨ res.statusCode < 200 then
    some .skippedNoBody
  else if res.headersSent then some .skippedEncoded
  else if contentEncoding ≠ "" ∧ contentEncoding ≠ "identity" then some .skippedEncoded
  else if cacheControl ≠ "" ∧ noTransform cacheControl then some .skippedNoTransform
  else if ¬ isCompressible (headerString (res.headers .contentType)) then some .skippedType
  else if body.length < config.minBytes then some .skippedSmall
  else none

/-! ### The platform -/

/-- The encodings of texts, `BufferEncoding`. -/
inductive BufferEncoding where
  | ascii
  | utf8
  | utf16le
  | latin1
  | base64
  | base64url
  | hex
  deriving DecidableEq

/-- What is given to a callback: the message of an error, or none, and what was made, or nothing. -/
abbrev Answer := Option String × Option Buffer

/-- `Buffer.from` of a text, `brotliCompress` with its quality and size hint, `gzip` with its level,
and `res.vary` as what it makes of the header. -/
structure Platform where
  bufferFrom : String → Option BufferEncoding → Buffer
  brotliCompress : Buffer → (quality sizeHint : ℕ) → Answer
  gzip : Buffer → (level : ℕ) → Answer
  vary : Option HeaderValue → String → HeaderValue

/-- A first argument of `write`. -/
inductive Chunk where
  | buffer (bytes : Buffer)
  | uint8Array (bytes : List UInt8)
  | text (s : String)
  deriving DecidableEq

/-- A second argument of `write` or `end`. -/
inductive EncodingArg where
  | absent
  | encoding (e : BufferEncoding)
  | callback (f : Callback)
  deriving DecidableEq

/-- A first argument of `end`. -/
inductive EndChunk where
  | absent
  | callback (f : Callback)
  | chunk (c : Chunk)
  deriving DecidableEq

/-- `toBuffer`. -/
def toBuffer (p : Platform) (chunk : Chunk) (encoding : EncodingArg) : Buffer :=
  match chunk with
  | .buffer bytes | .uint8Array bytes => bytes
  | .text s =>
    match encoding with
    | .encoding e => p.bufferFrom s (some e)
    | _ => p.bufferFrom s none

/-- `compress`. -/
def compress (p : Platform) (body : Buffer) (encoding : CompressionEncoding) (level : ℕ) : Answer :=
  match encoding with
  | .br => p.brotliCompress body (min level 11) body.length
  | .gzip => p.gzip body level

/-! ### The response -/

/-- What the original response is asked to do. -/
inductive Call where
  | write (chunk : Chunk) (encodingArg : EncodingArg) (cb : Option Callback)
  | finish (chunk : EndChunk) (encodingArg : EncodingArg) (cb : Option Callback)
  | vary (field : String)
  | setHeader (name : HeaderName) (value : HeaderValue)
  deriving DecidableEq

structure Response where
  head : Head
  calls : List Call

namespace Response

/-- The original `write`. The headers are sent before the first byte. -/
def write (r : Response) (chunk : Chunk) (encodingArg : EncodingArg) (cb : Option Callback) :
    Response where
  head := { r.head with headersSent := true }
  calls := r.calls ++ [.write chunk encodingArg cb]

/-- The original `end`. -/
def finish (r : Response) (chunk : EndChunk) (encodingArg : EncodingArg) (cb : Option Callback) :
    Response where
  head := { r.head with headersSent := true }
  calls := r.calls ++ [.finish chunk encodingArg cb]

/-- `res.vary`, by the middleware. -/
def vary (p : Platform) (r : Response) (field : String) : Response where
  head := { r.head with
    headers := Function.update r.head.headers .vary (p.vary (r.head.headers .vary) field) }
  calls := r.calls ++ [.vary field]

/-- `res.setHeader`, by the middleware. -/
def setHeader (r : Response) (name : HeaderName) (value : HeaderValue) : Response where
  head := { r.head with headers := Function.update r.head.headers name value }
  calls := r.calls ++ [.setHeader name value]

end Response

/-- What the handler does to the head of a response. -/
inductive HeadEvent where
  | setStatus (statusCode : ℕ)
  | setHeader (name : HeaderName) (value : HeaderValue)
  | removeHeader (name : HeaderName)
  | flushHeaders
  deriving DecidableEq

/-- Once the headers are sent, nothing changes. -/
def Head.step (h : Head) (e : HeadEvent) : Head :=
  if h.headersSent then h
  else
    match e with
    | .setStatus statusCode => { h with statusCode }
    | .setHeader name value => { h with headers := Function.update h.headers name (some value) }
    | .removeHeader name => { h with headers := Function.update h.headers name none }
    | .flushHeaders => { h with headersSent := true }

/-! ### The middleware -/

/-- The variables of one call of `use`, and whether its methods stand in place of the original. -/
structure Wrapper where
  encoding : CompressionEncoding
  chunks : List Buffer := []
  buffered : ℕ := 0
  passthrough : Bool := false
  installed : Bool := true

/-- A response and what the middleware did: the outcomes counted, the callbacks scheduled, the body
handed to the compressor, the warnings, and the most bytes that `chunks` ever held. -/
structure Exchange where
  response : Response
  wrapper : Option Wrapper := none
  outcomes : List CompressionOutcome := []
  scheduled : List Callback := []
  job : Option Buffer := none
  warnings : List String := []
  peak : ℕ := 0

/-- The path is one of the prefixes or lies below one. -/
def excluded (config : CompressionConfig) (path : String) : Bool :=
  config.excludedPathPrefixes.any fun pre =>
    path = pre || (pre ++ "/").toList.isPrefixOf path.toList

/-- `use`, up to `next()`. -/
def use (config : CompressionConfig) (req : Request) (res : Head) : Exchange :=
  let response : Response := { head := res, calls := [] }
  if ¬ config.enabled then { response, outcomes := [.skippedDisabled] }
  else if req.upgrade = some "websocket" ∨ req.method = "HEAD" then { response }
  else if excluded config (req.path.getD "") then { response, outcomes := [.skippedExcluded] }
  else
    match negotiateEncoding req.acceptEncoding with
    | none => { response, outcomes := [.skippedNotAccepted] }
    | some encoding => { response, wrapper := some { encoding } }

/-- The bytes of chunks together. -/
def held (chunks : List Buffer) : ℕ := (chunks.map List.length).sum

namespace Exchange

/-- `compressionOutcomes.inc`. -/
def inc (x : Exchange) (outcome : CompressionOutcome) : Exchange :=
  { x with outcomes := x.outcomes ++ [outcome] }

/-- `process.nextTick`, where there is a callback. -/
def nextTick (x : Exchange) (encodingArg : EncodingArg) (cb : Option Callback) : Exchange :=
  match encodingArg with
  | .callback f => { x with scheduled := x.scheduled ++ [f] }
  | _ => { x with scheduled := x.scheduled ++ cb.toList }

def originalWrite (x : Exchange) (chunk : Chunk) (encodingArg : EncodingArg)
    (cb : Option Callback) : Exchange :=
  { x with response := x.response.write chunk encodingArg cb }

def originalEnd (x : Exchange) (chunk : EndChunk) (encodingArg : EncodingArg)
    (cb : Option Callback) : Exchange :=
  { x with response := x.response.finish chunk encodingArg cb }

/-- `switchToPassthrough`. -/
def switchToPassthrough (x : Exchange) (w : Wrapper) : Exchange :=
  let x := x.inc .skippedOversize
  let x := if w.chunks = [] then x else x.originalWrite (.buffer w.chunks.flatten) .absent none
  { x with wrapper := some { w with passthrough := true, installed := false, chunks := [] } }

/-- `chunks.push`. -/
def pushChunk (x : Exchange) (w : Wrapper) : Exchange :=
  { x with wrapper := some w, peak := max x.peak (held w.chunks) }

/-- `res.write`: the one of the middleware while it stands in place, and else the original. -/
def write (p : Platform) (config : CompressionConfig) (chunk : Chunk) (encodingArg : EncodingArg)
    (cb : Option Callback) (x : Exchange) : Exchange :=
  match x.wrapper with
  | none => x.originalWrite chunk encodingArg cb
  | some w =>
    if ¬ w.installed ∨ w.passthrough then x.originalWrite chunk encodingArg cb
    else
      let buf := toBuffer p chunk encodingArg
      let w := { w with chunks := w.chunks ++ [buf], buffered := w.buffered + buf.length }
      let x := x.pushChunk w
      let x := if config.maxBufferBytes < w.buffered then x.switchToPassthrough w else x
      x.nextTick encodingArg cb

/-- `res.end`. The callback of a call that is not passed on is not called. -/
def finish (p : Platform) (config : CompressionConfig) (chunk : EndChunk)
    (encodingArg : EncodingArg) (cb : Option Callback) (x : Exchange) : Exchange :=
  match x.wrapper with
  | none => x.originalEnd chunk encodingArg cb
  | some w =>
    if ¬ w.installed ∨ w.passthrough then x.originalEnd chunk encodingArg cb
    else
      let w := match chunk with
        | .chunk c => { w with chunks := w.chunks ++ [toBuffer p c encodingArg] }
        | _ => w
      let body := w.chunks.flatten
      let x := x.pushChunk { w with installed := false }
      match skipReason config x.response.head body with
      | some skip => (x.inc skip).originalEnd (.chunk (.buffer body)) .absent none
      | none => { x with job := some body }

/-- The outcome of a body that was compressed. -/
def compressed : CompressionEncoding → CompressionOutcome
  | .br => .compressedBr
  | .gzip => .compressedGzip

/-- The callback that `compress` is given. -/
def answer (p : Platform) (config : CompressionConfig) (x : Exchange) : Exchange :=
  match x.wrapper, x.job with
  | some w, some body =>
    match compress p body w.encoding config.level with
    | (none, some out) =>
      let x := x.inc (compressed w.encoding)
      let response :=
        if x.response.head.headersSent then x.response
        else
          ((x.response.vary p "Accept-Encoding").setHeader .contentEncoding
            (.text w.encoding.name)).setHeader .contentLength (.number out.length)
      { x with response := response.finish (.chunk (.buffer out)) .absent none }
    | (err, _) =>
      let warning := "compression failed, sending identity encoding: " ++ err.getD "no output"
      let x := { x.inc .errorFallback with warnings := x.warnings ++ [warning] }
      x.originalEnd (.chunk (.buffer body)) .absent none
  | _, _ => x

end Exchange

/-! ### A request -/

/-- What the handler does before it ends the response. -/
inductive Event where
  | write (chunk : Chunk) (encodingArg : EncodingArg) (cb : Option Callback)
  | head (e : HeadEvent)
  deriving DecidableEq

/-- The call of `end`. -/
structure End where
  chunk : EndChunk
  encodingArg : EncodingArg
  cb : Option Callback
  deriving DecidableEq

/-- Everything the handler does: before it ends the response, the end, and what it still does to the
head before the compressor answers. -/
structure Script where
  before : List Event
  final : End
  after : List HeadEvent

namespace Exchange

def onHead (x : Exchange) (e : HeadEvent) : Exchange :=
  { x with response := { x.response with head := x.response.head.step e } }

def step (p : Platform) (config : CompressionConfig) (x : Exchange) : Event → Exchange
  | .write chunk encodingArg cb => x.write p config chunk encodingArg cb
  | .head e => x.onHead e

end Exchange

/-- The exchange after what the handler does before the end. -/
def runBefore (p : Platform) (config : CompressionConfig) (req : Request) (res : Head)
    (before : List Event) : Exchange :=
  before.foldl (Exchange.step p config) (use config req res)

/-- The exchange after the call of `end`. -/
def runEnd (p : Platform) (config : CompressionConfig) (req : Request) (res : Head)
    (s : Script) : Exchange :=
  (runBefore p config req res s.before).finish p config s.final.chunk s.final.encodingArg s.final.cb

/-- A request from beginning to end. -/
def run (p : Platform) (config : CompressionConfig) (req : Request) (res : Head)
    (s : Script) : Exchange :=
  (s.after.foldl Exchange.onHead (runEnd p config req res s)).answer p config

/-! ### The body -/

/-- The bytes of the chunks of the calls of `write`. -/
def writes (p : Platform) (before : List Event) : List Buffer :=
  before.filterMap fun
    | .write chunk encodingArg _ => some (toBuffer p chunk encodingArg)
    | .head _ => none

/-- The bytes of the chunk of `end`, where it has one. -/
def endBytes (p : Platform) (chunk : EndChunk) (encodingArg : EncodingArg) : Buffer :=
  match chunk with
  | .chunk c => toBuffer p c encodingArg
  | _ => []

/-- The chunks of a request together. -/
def bodyOf (p : Platform) (s : Script) : Buffer :=
  (writes p s.before).flatten ++ endBytes p s.final.chunk s.final.encodingArg

/-- The bytes that a call hands to the response. -/
def Call.bytes (p : Platform) : Call → Buffer
  | .write chunk encodingArg _ => toBuffer p chunk encodingArg
  | .finish chunk encodingArg _ => endBytes p chunk encodingArg
  | _ => []

/-- The bytes handed to the original response. -/
def Response.handed (p : Platform) (r : Response) : Buffer := r.calls.flatMap (Call.bytes p)

end Swyft.Compression
