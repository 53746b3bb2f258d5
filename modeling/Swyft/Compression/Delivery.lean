import Swyft.Compression.Middleware
import Swyft.Lib.Staging

/-!
# Every body arrives

Up to the end of a response the middleware is a stage: what it collects and what it sends is each
chunk once, in order, and it gives up collecting once the calls of `write` alone have passed the
cap. The end of a response either sends all of it as it is, without a word about its encoding, or
leaves it to the compressor; and what is sent for the answer is the body again, or the body
compressed, under the name of the compression.

What a handler has encoded itself, and said so, is sent as it is under the handler's own header, and
decoding it gives what the handler encoded.

## Main definitions

* `Tracks` — the exchange is where a stage is
* `Plain`, `Pending` — what the end of a response leaves
* `codings`, `decoded` — what a header says of bytes, and the bytes it stands for

## Main results

* `tracks_runBefore` — the middleware is a stage
* `runEnd_cases` — what the end of a response leaves
* `body_arrives` — what is sent decodes to the body, and the response is ended once
* `precompressed_body_decodes_otherwise` — what a handler encoded decodes to something else
-/

namespace Swyft.Compression

open Js Staging

variable {p : Platform} {config : CompressionConfig} {req : Request} {res : Head} {s : Script}
  {x : Exchange} {w : Wrapper} {st : Stage Buffer} {body : Buffer}

/-! ### The calls of a response -/

def Call.IsWrite : Call → Prop
  | .write .. => True
  | _ => False

def Call.IsEnd : Call → Prop
  | .finish .. => True
  | _ => False

/-- The response is ended once, by the last call. -/
def EndedOnce (calls : List Call) : Prop :=
  ∃ earlier last, calls = earlier ++ [last] ∧ last.IsEnd ∧ ∀ c ∈ earlier, ¬ c.IsEnd

/-- The middleware set the header `Content-Encoding`. -/
def SetsEncoding (calls : List Call) : Prop := ∃ v, Call.setHeader .contentEncoding v ∈ calls

@[simp] theorem handed_write (r : Response) (chunk : Chunk) (e : EncodingArg)
    (cb : Option Callback) :
    (r.write chunk e cb).handed p = r.handed p ++ toBuffer p chunk e := by
  simp [Response.write, Response.handed, Call.bytes]

@[simp] theorem handed_finish (r : Response) (chunk : EndChunk) (e : EncodingArg)
    (cb : Option Callback) :
    (r.finish chunk e cb).handed p = r.handed p ++ endBytes p chunk e := by
  simp [Response.finish, Response.handed, Call.bytes]

theorem forall_isWrite_write {r : Response} (h : ∀ c ∈ r.calls, c.IsWrite) (chunk : Chunk)
    (e : EncodingArg) (cb : Option Callback) : ∀ c ∈ (r.write chunk e cb).calls, c.IsWrite := by
  intro c hc
  obtain hc | hc := List.mem_append.mp hc
  · exact h c hc
  · rw [List.mem_singleton.mp hc]
    trivial

/-! ### Before the end -/

/-- The head after what the handler does to it, where nothing is sent. -/
def headAfter (res : Head) (before : List Event) : Head :=
  before.foldl (fun h => fun
    | .head e => h.step e
    | .write .. => h) res

/-- The middleware stands aside: what is written is sent. -/
structure Aside (p : Platform) (x : Exchange) (bufs : List Buffer) : Prop where
  wrapper : x.wrapper = none
  handed : x.response.handed p = bufs.flatten
  calls : ∀ c ∈ x.response.calls, c.IsWrite
  job : x.job = none
  peak : x.peak = 0

theorem Aside.write {bufs : List Buffer} (h : Aside p x bufs) (chunk : Chunk) (e : EncodingArg)
    (cb : Option Callback) :
    Aside p (x.write p config chunk e cb) (bufs ++ [toBuffer p chunk e]) := by
  have hwrite : x.write p config chunk e cb = x.originalWrite chunk e cb := by
    rw [Exchange.write, h.wrapper]
  rw [hwrite]
  refine ⟨h.wrapper, ?_, forall_isWrite_write h.calls chunk e cb, h.job, h.peak⟩
  show (x.response.write chunk e cb).handed p = _
  rw [handed_write, h.handed, List.flatten_append, List.flatten_singleton]

/-- The exchange is where the stage is. -/
structure Tracks (p : Platform) (x : Exchange) (w : Wrapper) (h : Head) (st : Stage Buffer) :
    Prop where
  wrapper : x.wrapper = some w
  chunks : w.chunks = st.held
  buffered : st.passed = false → w.buffered = total List.length st.held
  passthrough : w.passthrough = st.passed
  installed : w.installed = !st.passed
  handed : x.response.handed p = st.sent.flatten
  calls : ∀ c ∈ x.response.calls, c.IsWrite
  /-- Nothing is sent while chunks are collected. -/
  unsent : st.passed = false → x.response = { head := h, calls := [] }
  job : x.job = none
  peak : x.peak = st.peak

theorem Tracks.nextTick {h : Head} (ht : Tracks p x w h st) (e : EncodingArg)
    (cb : Option Callback) : Tracks p (x.nextTick e cb) w h st := by
  cases e <;> exact { ht with }

/-- A write after the switch. -/
theorem Tracks.write_passed {h : Head} (ht : Tracks p x w h st) (hpassed : st.passed = true)
    (chunk : Chunk) (e : EncodingArg) (cb : Option Callback) :
    Tracks p (x.write p config chunk e cb) w h
      { st with sent := st.sent ++ [toBuffer p chunk e] } := by
  have hwrite : x.write p config chunk e cb = x.originalWrite chunk e cb := by
    simp [Exchange.write, ht.wrapper, ht.passthrough, hpassed]
  have hopen : st.passed ≠ false := by simp [hpassed]
  rw [hwrite]
  refine ⟨ht.wrapper, ht.chunks, ht.buffered, ht.passthrough, ht.installed, ?_,
    forall_isWrite_write ht.calls chunk e cb, fun hfalse => absurd hfalse hopen, ht.job, ht.peak⟩
  show (x.response.write chunk e cb).handed p = _
  rw [handed_write, ht.handed, List.flatten_append, List.flatten_singleton]

/-- The variables of the middleware after a chunk has been collected. -/
def collected (w : Wrapper) (buf : Buffer) : Wrapper :=
  { w with chunks := w.chunks ++ [buf], buffered := w.buffered + buf.length }

theorem Tracks.collect {h : Head} (ht : Tracks p x w h st) (hopen : st.passed = false)
    (buf : Buffer) :
    Tracks p (x.pushChunk (collected w buf)) (collected w buf) h
      { st with
        held := st.held ++ [buf]
        peak := max st.peak (total List.length (st.held ++ [buf])) } := by
  have hchunks : (collected w buf).chunks = st.held ++ [buf] := by rw [collected, ht.chunks]
  refine ⟨rfl, hchunks, ?_, ht.passthrough, ht.installed, ht.handed, ht.calls, ht.unsent, ht.job,
    ?_⟩
  · intro _
    simp [collected, ht.buffered hopen]
  · show max x.peak (held (collected w buf).chunks) = _
    rw [hchunks, ht.peak]
    rfl

theorem Tracks.switchToPassthrough {h : Head} (ht : Tracks p x w h st) (hheld : st.held ≠ []) :
    Tracks p (x.switchToPassthrough w)
      { w with passthrough := true, installed := false, chunks := [] } h
      { held := [], sent := st.sent ++ st.held, passed := true, peak := st.peak } := by
  have hswitch : x.switchToPassthrough w =
      { (x.inc .skippedOversize).originalWrite (.buffer w.chunks.flatten) .absent none with
        wrapper := some { w with passthrough := true, installed := false, chunks := [] } } := by
    rw [Exchange.switchToPassthrough, if_neg (by rwa [ht.chunks])]
  rw [hswitch]
  refine ⟨rfl, rfl, nofun, rfl, rfl, ?_, forall_isWrite_write ht.calls _ _ _, nofun, ht.job,
    ht.peak⟩
  show (x.response.write (.buffer w.chunks.flatten) .absent none).handed p = _
  rw [handed_write, ht.handed, ht.chunks, List.flatten_append]
  rfl

theorem Tracks.write {h : Head} (ht : Tracks p x w h st) (chunk : Chunk) (e : EncodingArg)
    (cb : Option Callback) :
    ∃ w', w'.encoding = w.encoding ∧ Tracks p (x.write p config chunk e cb) w' h
      (push List.length config.maxBufferBytes st (toBuffer p chunk e)) := by
  rw [push]
  split
  next hpassed => exact ⟨w, rfl, ht.write_passed hpassed chunk e cb⟩
  next hpassed =>
    have hopen : st.passed = false := by simpa using hpassed
    have hcollect := ht.collect hopen (toBuffer p chunk e)
    have hbuffered := hcollect.buffered hopen
    have hwrite : x.write p config chunk e cb =
        (if config.maxBufferBytes < (collected w (toBuffer p chunk e)).buffered then
          (x.pushChunk (collected w (toBuffer p chunk e))).switchToPassthrough
            (collected w (toBuffer p chunk e))
        else x.pushChunk (collected w (toBuffer p chunk e))).nextTick e cb := by
      simp [Exchange.write, ht.wrapper, ht.passthrough, ht.installed, hopen, collected]
    rw [hwrite, hbuffered]
    simp only
    split
    next =>
      refine ⟨_, ?_, (hcollect.switchToPassthrough ?_).nextTick e cb⟩
      · rfl
      · simp
    next => exact ⟨collected w (toBuffer p chunk e), rfl, hcollect.nextTick e cb⟩

theorem Aside.onHead {bufs : List Buffer} (h : Aside p x bufs) (e : HeadEvent) :
    Aside p (x.onHead e) bufs :=
  ⟨h.wrapper, h.handed, h.calls, h.job, h.peak⟩

theorem Tracks.onHead {h : Head} (ht : Tracks p x w h st) (e : HeadEvent) :
    Tracks p (x.onHead e) w (h.step e) st := by
  refine ⟨ht.wrapper, ht.chunks, ht.buffered, ht.passthrough, ht.installed, ht.handed, ht.calls,
    ?_, ht.job, ht.peak⟩
  intro hopen
  show ({ x.response with head := x.response.head.step e } : Response) = _
  rw [ht.unsent hopen]

/-- The middleware has no part in the request. -/
def Exempt (config : CompressionConfig) (req : Request) : Prop :=
  config.enabled = false ∨ req.upgrade = some "websocket" ∨ req.method = "HEAD" ∨
    excluded config (req.path.getD "") = true ∨ negotiateEncoding req.acceptEncoding = none

theorem forall_isWrite_nil : ∀ c ∈ ([] : List Call), c.IsWrite :=
  fun _ hc => absurd hc List.not_mem_nil

theorem aside_start (p : Platform) (res : Head) (outcomes : List CompressionOutcome) :
    Aside p { response := { head := res, calls := [] }, outcomes } [] :=
  ⟨rfl, rfl, forall_isWrite_nil, rfl, rfl⟩

theorem aside_use (h : Exempt config req) : Aside p (use config req res) [] := by
  rw [use]
  split
  · exact aside_start p res _
  split
  · exact aside_start p res _
  split
  · exact aside_start p res _
  next henabled hmethod hexcluded =>
    have hnone : negotiateEncoding req.acceptEncoding = none := by
      obtain h | h | h | h | h := h
      · exact absurd (by simpa using h) henabled
      · exact absurd (Or.inl h) hmethod
      · exact absurd (Or.inr h) hmethod
      · exact absurd h hexcluded
      · exact h
    rw [hnone]
    exact aside_start p res _

theorem tracks_use (h : ¬ Exempt config req) :
    ∃ w, negotiateEncoding req.acceptEncoding = some w.encoding ∧
      Tracks p (use config req res) w res {} := by
  simp only [Exempt, not_or, Bool.not_eq_false, Bool.not_eq_true] at h
  obtain ⟨henabled, hupgrade, hmethod, hexcluded, hencoding⟩ := h
  obtain ⟨encoding, hsome⟩ := Option.ne_none_iff_exists'.mp hencoding
  refine ⟨{ encoding }, hsome, ?_⟩
  have huse : use config req res =
      { response := { head := res, calls := [] }, wrapper := some { encoding } } := by
    simp [use, henabled, hupgrade, hmethod, hexcluded, hsome]
  rw [huse]
  exact ⟨rfl, rfl, fun _ => rfl, rfl, rfl, rfl, forall_isWrite_nil, fun _ => rfl, rfl, rfl⟩

theorem writes_append_write (before : List Event) (chunk : Chunk) (e : EncodingArg)
    (cb : Option Callback) :
    writes p (before ++ [.write chunk e cb]) = writes p before ++ [toBuffer p chunk e] := by
  simp [writes]

theorem writes_append_head (before : List Event) (e : HeadEvent) :
    writes p (before ++ [.head e]) = writes p before := by
  simp [writes]

theorem runBefore_append (before : List Event) (e : Event) :
    runBefore p config req res (before ++ [e]) =
      (runBefore p config req res before).step p config e := by
  rw [runBefore, List.foldl_append, List.foldl_cons, List.foldl_nil, runBefore]

theorem aside_runBefore (p : Platform) (res : Head) (h : Exempt config req)
    (before : List Event) :
    Aside p (runBefore p config req res before) (writes p before) := by
  induction before using List.reverseRecOn with
  | nil => exact aside_use h
  | append_singleton before e ih =>
    rw [runBefore_append]
    cases e with
    | write chunk e cb =>
      rw [writes_append_write, Exchange.step]
      exact ih.write chunk e cb
    | head e =>
      rw [writes_append_head, Exchange.step]
      exact ih.onHead e

theorem headAfter_append_write (before : List Event) (chunk : Chunk) (e : EncodingArg)
    (cb : Option Callback) :
    headAfter res (before ++ [.write chunk e cb]) = headAfter res before := by
  simp [headAfter]

theorem headAfter_append_head (before : List Event) (e : HeadEvent) :
    headAfter res (before ++ [.head e]) = (headAfter res before).step e := by
  simp [headAfter]

/-- **The middleware is a stage.** -/
theorem tracks_runBefore (p : Platform) (res : Head) (h : ¬ Exempt config req)
    (before : List Event) :
    ∃ w, negotiateEncoding req.acceptEncoding = some w.encoding ∧
      Tracks p (runBefore p config req res before) w (headAfter res before)
        ((writes p before).foldl (push List.length config.maxBufferBytes) {}) := by
  induction before using List.reverseRecOn with
  | nil => exact tracks_use h
  | append_singleton before e ih =>
    obtain ⟨w, hw, ih⟩ := ih
    rw [runBefore_append]
    cases e with
    | write chunk e cb =>
      obtain ⟨w', hw', ht⟩ := ih.write chunk e cb
      rw [writes_append_write, headAfter_append_write, List.foldl_append, List.foldl_cons,
        List.foldl_nil, Exchange.step]
      exact ⟨w', hw'.symm ▸ hw, ht⟩
    | head e =>
      rw [writes_append_head, headAfter_append_head, Exchange.step]
      exact ⟨w, hw, ih.onHead e⟩

/-! ### The end -/

/-- The body was sent as it is, and the response was ended. -/
structure Plain (p : Platform) (x : Exchange) (body : Buffer) : Prop where
  handed : x.response.handed p = body
  calls : ∃ earlier last, x.response.calls = earlier ++ [last] ∧ last.IsEnd ∧
    ∀ c ∈ earlier, c.IsWrite

/-- The body is with the compressor, and nothing was sent. -/
structure Pending (x : Exchange) (encoding : CompressionEncoding) (body : Buffer) : Prop where
  wrapper : ∃ w, x.wrapper = some w ∧ w.encoding = encoding
  job : x.job = some body
  calls : x.response.calls = []
  unsent : x.response.head.headersSent = false

theorem Plain.of_originalEnd (hcalls : ∀ c ∈ x.response.calls, c.IsWrite) (f : End)
    (hbody : x.response.handed p ++ endBytes p f.chunk f.encodingArg = body) :
    Plain p (x.originalEnd f.chunk f.encodingArg f.cb) body := by
  refine ⟨?_, ⟨x.response.calls, .finish f.chunk f.encodingArg f.cb, rfl, trivial, hcalls⟩⟩
  rw [← hbody]
  exact handed_finish x.response f.chunk f.encodingArg f.cb

theorem Aside.finish {bufs : List Buffer} (h : Aside p x bufs) (f : End) :
    x.finish p config f.chunk f.encodingArg f.cb = x.originalEnd f.chunk f.encodingArg f.cb := by
  rw [Exchange.finish, h.wrapper]

/-- The end after the switch. -/
theorem Tracks.finish_passed {h : Head} (ht : Tracks p x w h st) (hpassed : st.passed = true)
    (f : End) :
    x.finish p config f.chunk f.encodingArg f.cb = x.originalEnd f.chunk f.encodingArg f.cb := by
  simp [Exchange.finish, ht.wrapper, ht.passthrough, hpassed]

/-- The variables of the middleware at the end. -/
def atEnd (p : Platform) (w : Wrapper) (f : End) : Wrapper :=
  { w with
    chunks := match f.chunk with
      | .chunk c => w.chunks ++ [toBuffer p c f.encodingArg]
      | _ => w.chunks
    installed := false }

theorem flatten_atEnd (p : Platform) (w : Wrapper) (f : End) :
    (atEnd p w f).chunks.flatten = w.chunks.flatten ++ endBytes p f.chunk f.encodingArg := by
  obtain ⟨chunk, e, cb⟩ := f
  cases chunk <;> simp [atEnd, endBytes]

/-- What `chunks` holds at the end is the body. -/
theorem held_atEnd (p : Platform) (w : Wrapper) (f : End) :
    held (atEnd p w f).chunks = (w.chunks.flatten ++ endBytes p f.chunk f.encodingArg).length := by
  rw [held, ← List.length_flatten, flatten_atEnd]

/-- The end while chunks are collected. -/
theorem Tracks.finish_open {h : Head} (ht : Tracks p x w h st) (hopen : st.passed = false) (f : End)
    (hbody : w.chunks.flatten ++ endBytes p f.chunk f.encodingArg = body) :
    x.finish p config f.chunk f.encodingArg f.cb =
      match skipReason config h body with
      | some skip =>
        ((x.pushChunk (atEnd p w f)).inc skip).originalEnd (.chunk (.buffer body)) .absent none
      | none => { x.pushChunk (atEnd p w f) with job := some body } := by
  have hhead : x.response.head = h := by rw [ht.unsent hopen]
  rw [← hbody, ← flatten_atEnd, ← hhead]
  have hwrapped : ¬ (¬ w.installed ∨ w.passthrough) := by
    simp [ht.passthrough, ht.installed, hopen]
  obtain ⟨chunk, e, cb⟩ := f
  rw [Exchange.finish, ht.wrapper]
  simp only [if_neg hwrapped]
  cases chunk <;> rfl

/-- The calls of `write` alone pass the cap. -/
def WritesPass (p : Platform) (config : CompressionConfig) (s : Script) : Prop :=
  config.maxBufferBytes < held (writes p s.before)

theorem staged_writes (p : Platform) (config : CompressionConfig) (s : Script) :
    Staged List.length config.maxBufferBytes (writes p s.before)
      ((writes p s.before).foldl (push List.length config.maxBufferBytes) {}) :=
  staged_foldl _ _ _

theorem runEnd_exempt (p : Platform) (res : Head) (s : Script) (h : Exempt config req) :
    Plain p (runEnd p config req res s) (bodyOf p s) ∧ (runEnd p config req res s).job = none ∧
      (runEnd p config req res s).peak = 0 := by
  have hbefore := aside_runBefore p res h s.before
  rw [runEnd, hbefore.finish s.final]
  exact ⟨.of_originalEnd hbefore.calls s.final (by rw [hbefore.handed, bodyOf]), hbefore.job,
    hbefore.peak⟩

theorem runEnd_writesPass (res : Head) (h : ¬ Exempt config req) (hpass : WritesPass p config s) :
    Plain p (runEnd p config req res s) (bodyOf p s) ∧ (runEnd p config req res s).job = none ∧
      (runEnd p config req res s).peak ≤
        config.maxBufferBytes + longest List.length (writes p s.before) := by
  have hstaged := staged_writes p config s
  obtain ⟨w, -, ht⟩ := tracks_runBefore p res h s.before
  have hpassed := hstaged.passed.mpr hpass
  have hpieces := hstaged.pieces
  rw [hstaged.drained hpassed, List.append_nil] at hpieces
  rw [runEnd, ht.finish_passed hpassed s.final]
  refine ⟨.of_originalEnd ht.calls s.final ?_, ht.job, ht.peak.trans_le hstaged.peak⟩
  rw [ht.handed, hpieces, bodyOf]

theorem unsent_of_skipReason {h : Head} (hskip : skipReason config h body = none) :
    h.headersSent = false := by
  unfold skipReason at hskip
  simp only at hskip
  split at hskip
  · cases hskip
  split at hskip
  · cases hskip
  next hsent => simpa using hsent

theorem Tracks.pushChunk_peak {h : Head} (ht : Tracks p x w h st)
    (hpeak : st.peak = total List.length st.held) (f : End) :
    (x.pushChunk (atEnd p w f)).peak =
      (w.chunks.flatten ++ endBytes p f.chunk f.encodingArg).length := by
  show max x.peak (held (atEnd p w f).chunks) = _
  rw [held_atEnd, ht.peak, hpeak, total, ← ht.chunks, ← List.length_flatten, List.length_append]
  exact max_eq_right (Nat.le_add_right _ _)

/-- What the end leaves where the calls of `write` alone do not pass the cap. -/
theorem runEnd_collected (res : Head) (h : ¬ Exempt config req) (hpass : ¬ WritesPass p config s) :
    (runEnd p config req res s).peak = (bodyOf p s).length ∧
      ((skipReason config (headAfter res s.before) (bodyOf p s)).isSome ∧
          Plain p (runEnd p config req res s) (bodyOf p s) ∧
          (runEnd p config req res s).job = none ∨
        skipReason config (headAfter res s.before) (bodyOf p s) = none ∧
          ∃ encoding, Pending (runEnd p config req res s) encoding (bodyOf p s)) := by
  have hstaged := staged_writes p config s
  obtain ⟨w, -, ht⟩ := tracks_runBefore p res h s.before
  have hopen := Bool.eq_false_iff.mpr fun hpassed => hpass (hstaged.passed.mp hpassed)
  obtain ⟨hsent, hpeak⟩ := hstaged.whole hopen
  have hheld := hstaged.pieces
  rw [hsent, List.nil_append] at hheld
  have hbody : w.chunks.flatten ++ endBytes p s.final.chunk s.final.encodingArg = bodyOf p s := by
    rw [ht.chunks, hheld, bodyOf]
  have hpushed := ht.pushChunk_peak (by rw [hpeak, hheld]) s.final
  rw [hbody] at hpushed
  have hresponse := ht.unsent hopen
  have hcalls := congrArg Response.calls hresponse
  rw [runEnd, ht.finish_open hopen s.final hbody]
  cases hskip : skipReason config (headAfter res s.before) (bodyOf p s) with
  | some skip =>
    refine ⟨hpushed, .inl ⟨rfl, ?_, ht.job⟩⟩
    refine Plain.of_originalEnd
      (x := ((runBefore p config req res s.before).pushChunk (atEnd p w s.final)).inc skip)
      ht.calls ⟨.chunk (.buffer (bodyOf p s)), .absent, none⟩ ?_
    show Response.handed p (runBefore p config req res s.before).response ++ bodyOf p s = _
    rw [hresponse]
    rfl
  | none =>
    refine ⟨hpushed, .inr ⟨rfl, w.encoding, ⟨_, rfl, rfl⟩, rfl, hcalls, ?_⟩⟩
    show (runBefore p config req res s.before).response.head.headersSent = false
    rw [hresponse]
    exact unsent_of_skipReason hskip

/-! ### The answer -/

/-- The body was sent compressed, with what the middleware says of it. -/
structure Compressed (p : Platform) (config : CompressionConfig) (x : Exchange)
    (encoding : CompressionEncoding) (body out : Buffer) : Prop where
  answered : compress p body encoding config.level = (none, some out)
  contentEncoding : x.response.head.headers .contentEncoding = some (.text encoding.name)
  calls : x.response.calls =
    [.vary "Accept-Encoding", .setHeader .contentEncoding (.text encoding.name),
      .setHeader .contentLength (.number out.length), .finish (.chunk (.buffer out)) .absent none]

theorem onHead_foldl (x : Exchange) (after : List HeadEvent) :
    (after.foldl Exchange.onHead x).response.calls = x.response.calls ∧
      (after.foldl Exchange.onHead x).job = x.job ∧
      (after.foldl Exchange.onHead x).wrapper = x.wrapper ∧
      (after.foldl Exchange.onHead x).peak = x.peak := by
  induction after using List.reverseRecOn with
  | nil => exact ⟨rfl, rfl, rfl, rfl⟩
  | append_singleton after e ih =>
    rw [List.foldl_append]
    exact ih

theorem unsent_onHead_foldl {after : List HeadEvent} (hafter : ∀ e ∈ after, e ≠ .flushHeaders)
    (hunsent : x.response.head.headersSent = false) :
    (after.foldl Exchange.onHead x).response.head.headersSent = false := by
  induction after generalizing x with
  | nil => exact hunsent
  | cons e after ih =>
    refine ih (fun e' he' => hafter e' (List.mem_cons_of_mem _ he')) ?_
    show (x.response.head.step e).headersSent = false
    have he := hafter e List.mem_cons_self
    cases e with
    | flushHeaders => exact absurd rfl he
    | _ => simp [Head.step, hunsent]

theorem Plain.of_calls {y : Exchange} (h : Plain p x body)
    (hcalls : y.response.calls = x.response.calls) : Plain p y body := by
  refine ⟨?_, ?_⟩
  · rw [Response.handed, hcalls]
    exact h.handed
  · rw [hcalls]
    exact h.calls

theorem answer_of_no_job (h : x.job = none) : x.answer p config = x := by
  rw [Exchange.answer, h]
  cases x.wrapper <;> rfl

theorem Pending.answer {encoding : CompressionEncoding} (h : Pending x encoding body) :
    Plain p (x.answer p config) body ∨
      ∃ out, Compressed p config (x.answer p config) encoding body out := by
  obtain ⟨w, hw, rfl⟩ := h.wrapper
  rw [Exchange.answer, hw, h.job]
  simp only
  split
  next out hout =>
    refine .inr ⟨out, hout, ?_, ?_⟩
    · simp [Exchange.inc, h.unsent, Response.finish, Response.setHeader]
    · simp [Exchange.inc, h.unsent, h.calls, Response.finish, Response.setHeader, Response.vary]
  next err _ _ _ =>
    refine .inl (Plain.of_originalEnd
      (x := { x.inc .errorFallback with
        warnings := x.warnings ++
          ["compression failed, sending identity encoding: " ++ err.getD "no output"] })
      ?_ ⟨.chunk (.buffer body), .absent, none⟩ ?_)
    · show ∀ c ∈ x.response.calls, c.IsWrite
      rw [h.calls]
      exact forall_isWrite_nil
    · show x.response.calls.flatMap (Call.bytes p) ++ body = body
      rw [h.calls]
      rfl

/-- A body that the end has sent stays sent. -/
theorem Plain.run (h : Plain p (runEnd p config req res s) body)
    (hjob : (runEnd p config req res s).job = none) :
    Plain p (run p config req res s) body ∧ (run p config req res s).job = none := by
  obtain ⟨hcalls, hkept, -, -⟩ := onHead_foldl (runEnd p config req res s) s.after
  rw [Compression.run, answer_of_no_job (hkept.trans hjob)]
  exact ⟨h.of_calls hcalls, hkept.trans hjob⟩

/-- What a request comes to. -/
theorem run_cases (p : Platform) (config : CompressionConfig) (req : Request) (res : Head)
    (hafter : ∀ e ∈ s.after, e ≠ .flushHeaders) :
    Plain p (run p config req res s) (bodyOf p s) ∨
      ∃ encoding out, Compressed p config (run p config req res s) encoding (bodyOf p s) out := by
  by_cases hexempt : Exempt config req
  · obtain ⟨h, hnone, -⟩ := runEnd_exempt p res s hexempt
    exact .inl (h.run hnone).1
  by_cases hpass : WritesPass p config s
  · obtain ⟨h, hnone, -⟩ := runEnd_writesPass res hexempt hpass
    exact .inl (h.run hnone).1
  obtain ⟨-, ⟨-, h, hnone⟩ | ⟨-, encoding, h⟩⟩ := runEnd_collected res hexempt hpass
  · exact .inl (h.run hnone).1
  · obtain ⟨hcalls, hjob, hwrapper, -⟩ := onHead_foldl (runEnd p config req res s) s.after
    have hpending : Pending (s.after.foldl Exchange.onHead (runEnd p config req res s)) encoding
        (bodyOf p s) :=
      ⟨hwrapper ▸ h.wrapper, hjob.trans h.job, hcalls.trans h.calls,
        unsent_onHead_foldl hafter h.unsent⟩
    exact hpending.answer.imp_right fun hcompressed => ⟨encoding, hcompressed⟩

/-! ### What a header says -/

/-- The codings that a header `Content-Encoding` names, in the order in which they were applied. -/
def codings (header : Option HeaderValue) : List String :=
  let values := match header with
    | some (.texts l) => l
    | some (.text s) => [s]
    | some (.number n) => [toString n]
    | none => []
  let names := values.flatMap fun s => (s.toList.splitOn ',').map fun name => lower (trim name)
  (names.filter fun name => name ≠ [] ∧ name ≠ "identity".toList).map String.ofList

/-- The bytes that stand behind others under a header: the last coding is undone first. -/
def decoded (decompress : String → Buffer → Option Buffer) (header : Option HeaderValue)
    (bytes : Buffer) : Option Buffer :=
  (codings header).foldr (fun coding rest => rest.bind (decompress coding)) (some bytes)

/-- To decompress is the inverse of each compressor. -/
structure Inverts (p : Platform) (decompress : String → Buffer → Option Buffer) : Prop where
  br : ∀ body quality sizeHint out,
    p.brotliCompress body quality sizeHint = (none, some out) → decompress "br" out = some body
  gzip : ∀ body level out, p.gzip body level = (none, some out) → decompress "gzip" out = some body

variable {decompress : String → Buffer → Option Buffer}

theorem codings_name (encoding : CompressionEncoding) :
    codings (some (.text encoding.name)) = [encoding.name] := by
  cases encoding <;> decide

theorem Inverts.compress (h : Inverts p decompress) {encoding : CompressionEncoding} {level : ℕ}
    {out : Buffer} (hout : compress p body encoding level = (none, some out)) :
    decompress encoding.name out = some body := by
  cases encoding with
  | br => exact h.br _ _ _ _ hout
  | gzip => exact h.gzip _ _ _ hout

theorem Compressed.decoded {encoding : CompressionEncoding} {out : Buffer}
    (h : Compressed p config x encoding body out) (hinverts : Inverts p decompress) :
    decoded decompress (x.response.head.headers .contentEncoding) (x.response.handed p) =
      some body := by
  have hhanded : x.response.handed p = out := by
    rw [Response.handed, h.calls]
    simp [Call.bytes, endBytes, toBuffer]
  rw [hhanded, h.contentEncoding, Compression.decoded, codings_name]
  exact hinverts.compress h.answered

theorem Plain.not_setsEncoding (h : Plain p x body) : ¬ SetsEncoding x.response.calls := by
  rintro ⟨v, hv⟩
  obtain ⟨earlier, last, hcalls, hlast, hwrites⟩ := h.calls
  rw [hcalls] at hv
  obtain hv | hv := List.mem_append.mp hv
  · exact hwrites _ hv
  · rw [← List.mem_singleton.mp hv] at hlast
    exact hlast

theorem Plain.endedOnce (h : Plain p x body) : EndedOnce x.response.calls := by
  obtain ⟨earlier, last, hcalls, hlast, hwrites⟩ := h.calls
  refine ⟨earlier, last, hcalls, hlast, fun c hc => ?_⟩
  have hwrite := hwrites c hc
  cases c <;> first | exact id | exact hwrite.elim

theorem Compressed.endedOnce {encoding : CompressionEncoding} {out : Buffer}
    (h : Compressed p config x encoding body out) : EndedOnce x.response.calls := by
  refine ⟨[.vary "Accept-Encoding", .setHeader .contentEncoding (.text encoding.name),
    .setHeader .contentLength (.number out.length)], _, h.calls, trivial, ?_⟩
  simp [Call.IsEnd]

/-- **Every body arrives.** The original response is ended once, by the last call. What it is given
is the body as it is, unless the middleware set the header; and decoded according to the header it
is the body, where the middleware set it or the handler named no coding in it. -/
theorem body_arrives (p : Platform) (config : CompressionConfig) (req : Request) (res : Head)
    (s : Script) (hinverts : Inverts p decompress) (hafter : ∀ e ∈ s.after, e ≠ .flushHeaders) :
    EndedOnce (run p config req res s).response.calls ∧
      (SetsEncoding (run p config req res s).response.calls ∨
        (run p config req res s).response.handed p = bodyOf p s) ∧
      (SetsEncoding (run p config req res s).response.calls ∨
          codings ((run p config req res s).response.head.headers .contentEncoding) = [] →
        decoded decompress ((run p config req res s).response.head.headers .contentEncoding)
          ((run p config req res s).response.handed p) = some (bodyOf p s)) := by
  obtain h | ⟨encoding, out, h⟩ := run_cases p config req res hafter
  · refine ⟨h.endedOnce, .inr h.handed, ?_⟩
    rintro (hset | hcodings)
    · exact absurd hset h.not_setsEncoding
    · rw [decoded, hcodings, h.handed]
      rfl
  · have hset : SetsEncoding (run p config req res s).response.calls := by
      refine ⟨.text encoding.name, ?_⟩
      rw [h.calls]
      simp
    exact ⟨h.endedOnce, .inl hset, fun _ => h.decoded hinverts⟩

/-! ### A platform that knows one body -/

/-- A platform of which it is known how it compresses one body with `gzip`. -/
def platformOf (body out : Buffer) : Platform where
  bufferFrom := fun s _ => s.toUTF8.toList
  brotliCompress := fun _ _ _ => (some "unknown", none)
  gzip := fun bytes _ => if bytes = body then (none, some out) else (some "unknown", none)
  vary := fun header field => match headerString header with
    | none => .text field
    | some fields => .text (fields ++ ", " ++ field)

def decompressOf (body out : Buffer) (coding : String) (bytes : Buffer) : Option Buffer :=
  if coding = "gzip" ∧ bytes = out then some body else none

theorem inverts_platformOf (body out : Buffer) :
    Inverts (platformOf body out) (decompressOf body out) where
  br := fun _ _ _ _ h => by cases h
  gzip := by
    intro bytes level made h
    by_cases hbytes : bytes = body
    · simp only [platformOf, if_pos hbytes, Prod.mk.injEq, Option.some.injEq, true_and] at h
      simp [decompressOf, h, hbytes]
    · simp [platformOf, hbytes] at h

/-- The text `a`, compressed. -/
def gzippedA : Buffer :=
  [31, 139, 8, 0, 0, 0, 0, 0, 0, 3, 75, 4, 0, 67, 190, 183, 232, 1, 0, 0, 0]

def gzipRequest : Request where
  method := "GET"
  path := some "/v1/pools"
  upgrade := none
  acceptEncoding := some (.text "gzip")

def plainHead : Head where
  statusCode := 200
  headersSent := false
  headers := fun _ => none

/-- A handler that sets the type of its response, and perhaps its encoding, and ends it at once. -/
def endAtOnce (events : List HeadEvent) (body : Buffer) : Script where
  before := .head (.setHeader .contentType (.text "text/plain")) :: events.map .head
  final := ⟨.chunk (.buffer body), .absent, none⟩
  after := []

/-- Every body is compressed, however small it is. -/
def eagerConfig : CompressionConfig := { compressionDefaults with minBytes := 0 }

/-- The text `a`, ended at once. -/
def shortRun : Exchange :=
  run (platformOf [97] gzippedA) eagerConfig gzipRequest plainHead (endAtOnce [] [97])

theorem short_body_arrives :
    Inverts (platformOf [97] gzippedA) (decompressOf [97] gzippedA) ∧
      (∀ e ∈ (endAtOnce [] [97]).after, e ≠ .flushHeaders) ∧
      EndedOnce shortRun.response.calls ∧ SetsEncoding shortRun.response.calls ∧
      decoded (decompressOf [97] gzippedA) (shortRun.response.head.headers .contentEncoding)
        (shortRun.response.handed (platformOf [97] gzippedA)) = some [97] := by
  have hinverts := inverts_platformOf [97] gzippedA
  have hafter : ∀ e ∈ (endAtOnce [] [97]).after, e ≠ .flushHeaders := nofun
  have hset : SetsEncoding shortRun.response.calls := ⟨.text "gzip", by decide +kernel⟩
  obtain ⟨hended, -, hdecoded⟩ :=
    body_arrives _ eagerConfig gzipRequest plainHead _ hinverts hafter
  exact ⟨hinverts, hafter, hended, hset, hdecoded (.inl hset)⟩

/-- The text `a`, which the handler compressed itself, as it says. -/
def precompressedRun : Exchange :=
  run (platformOf [97] gzippedA) eagerConfig gzipRequest plainHead
    (endAtOnce [.setHeader .contentEncoding (.text "gzip")] gzippedA)

/-- What is sent is what the handler gave, and what it stands for is something else. -/
theorem precompressed_body_decodes_otherwise :
    Inverts (platformOf [97] gzippedA) (decompressOf [97] gzippedA) ∧
      precompressedRun.outcomes = [.skippedEncoded] ∧
      precompressedRun.response.handed (platformOf [97] gzippedA) = gzippedA ∧
      decoded (decompressOf [97] gzippedA)
        (precompressedRun.response.head.headers .contentEncoding)
        (precompressedRun.response.handed (platformOf [97] gzippedA)) ≠
          some (bodyOf (platformOf [97] gzippedA)
            (endAtOnce [.setHeader .contentEncoding (.text "gzip")] gzippedA)) :=
  ⟨inverts_platformOf _ _, by decide +kernel, by decide +kernel, by decide +kernel⟩

end Swyft.Compression
