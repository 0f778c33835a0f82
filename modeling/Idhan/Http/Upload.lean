import Idhan.Http.FileResponse
import Idhan.Lib.Overwrite
import Idhan.Lib.Total

/-!
# Bodies of requests

`UploadPipeline` takes the body of a request chunk by chunk.  It keeps the chunks in memory as long
as they fit; then it moves them to a temporary file and goes on there, with the size and the digest
of what it has written.

* `Received.append`: what the pipeline holds is what it was given.
* `upload_reassembles`: a body is the chunks in their order, in memory exactly if they fit.
-/

namespace Idhan.Http

open List

open Overwrite (overwrite overwrite_nil overwrite_of_ne_nil)

/-- `folly::IOBuf`: a chain of buffers, whose length is a `std::size_t`. -/
structure Chain where
  buffers : List Data
  length_lt : buffers.flatten.length < 2 ^ 64

def requestMemoryLimit : ℕ := 8 * 1024 * 1024

/-- What the system answers to the calls for the temporary file. -/
structure UploadHost where
  /-- `createUploadFile`, or the error it throws -/
  createUploadFile : Except String Unit
  /-- `folly::pwriteFull`, by the offset and the number of bytes: the number that is written, or a
  negative number -/
  pwriteFull : ℕ → ℕ → ℤ

/-- The members of `UploadPipeline`. -/
structure UploadPipeline where
  buffer : List Data := []
  file : Option Data := none
  /-- the bytes that `m_digest` has been given -/
  digest : Data := []
  size : ℕ := 0
  finished : Bool := false
  deriving DecidableEq, Repr

/-- `RequestBody`: a chain in memory or a `TemporaryUpload`. -/
inductive RequestBody (Digest : Type) where
  | memory (data : Data)
  | temporary (content : Data) (size : ℕ) (digest : Digest)
  deriving DecidableEq, Repr

/-- The difference of two numbers of type `std::size_t`. -/
def remaining (limit used : ℕ) : ℕ :=
  (limit + (2 ^ 64 - used)) % 2 ^ 64

namespace UploadPipeline

/-- A round of the loop of `write`. -/
def writeBuffer (host : UploadHost) (pipeline : UploadPipeline) (bytes : Data) :
    Except String UploadPipeline :=
  if 2 ^ 63 - 1 - pipeline.size < bytes.length then
    .error "Temporary upload exceeds file offset range"
  else if host.pwriteFull pipeline.size bytes.length < 0 then .error "Writing temporary upload"
  else if host.pwriteFull pipeline.size bytes.length ≠ bytes.length then
    .error "Short temporary upload write"
  else
    .ok { pipeline with
      file := pipeline.file.map fun content => overwrite content pipeline.size bytes
      digest := pipeline.digest ++ bytes
      size := pipeline.size + bytes.length }

def write (host : UploadHost) (pipeline : UploadPipeline) (chunk : List Data) :
    Except String UploadPipeline :=
  chunk.foldlM (writeBuffer host) pipeline

def append (host : UploadHost) (pipeline : UploadPipeline) (chunk : Option Chain) :
    Except String UploadPipeline :=
  if pipeline.finished then .error "Upload already completed"
  else
    match chunk with
    | none => .ok pipeline
    | some chunk =>
      if pipeline.file = none ∧
          chunk.buffers.flatten.length ≤
          remaining requestMemoryLimit pipeline.buffer.flatten.length then
        .ok { pipeline with buffer := pipeline.buffer ++ chunk.buffers }
      else if pipeline.file = none then do
        host.createUploadFile
        let pipeline ← write host { pipeline with file := some [], buffer := [] } pipeline.buffer
        write host pipeline chunk.buffers
      else write host pipeline chunk.buffers

def finish {Digest : Type} (sha256 : Data → Digest) (pipeline : UploadPipeline) :
    Except String (RequestBody Digest) :=
  if pipeline.finished then .error "Upload already completed"
  else
    match pipeline.file with
    | none => .ok (.memory pipeline.buffer.flatten)
    | some content => .ok (.temporary content pipeline.size (sha256 pipeline.digest))

end UploadPipeline

/-- The chunks of a body, and then its end. -/
def upload {Digest : Type} (host : UploadHost) (sha256 : Data → Digest)
    (chunks : List (Option Chain)) : Except String (RequestBody Digest) := do
  let pipeline ← chunks.foldlM (UploadPipeline.append host) {}
  pipeline.finish sha256

/-- The bytes of chunks. -/
def bytesOf (chunks : List (Option Chain)) : Data :=
  chunks.flatMap fun chunk => (chunk.map fun chain => chain.buffers.flatten).getD []

/-! ## What the pipeline holds -/

variable {host : UploadHost} {pipeline : UploadPipeline} {data : Data} {n : ℕ}

/-- The file holds the data, and size and digest are of it. -/
structure Stored (pipeline : UploadPipeline) (data : Data) : Prop where
  file : pipeline.file = some data
  size : pipeline.size = data.length
  digest : pipeline.digest = data
  buffer : pipeline.buffer = []
  finished : pipeline.finished = false

/-- The data is in memory. -/
structure Buffered (pipeline : UploadPipeline) (data : Data) : Prop where
  file : pipeline.file = none
  size : pipeline.size = 0
  digest : pipeline.digest = []
  buffer : pipeline.buffer.flatten = data
  finished : pipeline.finished = false

/-- The pipeline has received the data. -/
inductive Received (pipeline : UploadPipeline) (data : Data) : Prop
  | memory (h : Buffered pipeline data) (hlength : data.length ≤ requestMemoryLimit)
  | file (h : Stored pipeline data) (hlength : requestMemoryLimit < data.length)

/-- The system does what it is asked. -/
structure UploadHost.Reliable (host : UploadHost) : Prop where
  creates : host.createUploadFile = .ok ()
  writes : ∀ offset length, host.pwriteFull offset length = length

/-- The system does what it is asked, and a file can hold `n` bytes. -/
def UploadHost.Holds (host : UploadHost) (n : ℕ) : Prop :=
  host.Reliable ∧ n < 2 ^ 63

theorem overwrite_end (content bytes : Data) :
    overwrite content content.length bytes = content ++ bytes := by
  by_cases h : bytes = []
  · rw [h, overwrite_nil, append_nil]
  · rw [overwrite_of_ne_nil _ _ h, takeD_eq_take _ (le_refl _), take_length,
      drop_eq_nil_of_le (by omega), append_nil]

theorem Stored.writeBuffer (h : Stored pipeline data) {bytes : Data}
    (hn : (data ++ bytes).length ≤ n) :
    Meets (host.Holds n) (pipeline.writeBuffer host bytes) fun pipeline' => Stored pipeline'
      (data ++ bytes) := by
  unfold UploadPipeline.writeBuffer
  refine ⟨?_, fun ⟨hhost, hlt⟩ => ?_⟩
  · split_ifs
    · exact .error
    · exact .error
    · exact .error
    · refine .ok ⟨?_, ?_, by rw [h.digest], h.buffer, h.finished⟩
      · rw [h.file, h.size]
        exact congrArg some (overwrite_end data bytes)
      · rw [h.size, length_append]
  · rw [length_append] at hn
    rw [h.size, hhost.writes, if_neg (by omega), if_neg (by omega), if_neg (by simp)]
    exact ⟨_, rfl⟩

theorem Stored.write :
    ∀ {pipeline : UploadPipeline} {data : Data} (_ : Stored pipeline data) {chunk : List Data}
    (_ : (data ++ chunk.flatten).length ≤ n),
    Meets (host.Holds n) (pipeline.write host chunk) fun pipeline' => Stored pipeline'
      (data ++ chunk.flatten)
  | _, _, h, [], _ => .ok (by simpa using h)
  | _, data, h, bytes :: chunk, hn => by
    rw [flatten_cons, ← append_assoc] at hn ⊢
    rw [UploadPipeline.write, foldlM_cons]
    have hfirst : (data ++ bytes).length ≤ n := by
      rw [length_append] at hn
      omega
    exact (h.writeBuffer hfirst).bind fun _ h' => h'.write hn

/-- What fits is not more than what is left of the limit, which does not wrap around. -/
theorem le_remaining_iff {used length : ℕ} (h : used ≤ requestMemoryLimit) :
    length ≤ remaining requestMemoryLimit used ↔ used + length ≤ requestMemoryLimit := by
  unfold remaining requestMemoryLimit at *
  omega

theorem Buffered.moved (h : Buffered pipeline data) (hn : data.length ≤ n) :
    Meets (host.Holds n) (UploadPipeline.write host { pipeline with
      file := some [], buffer := [] } pipeline.buffer) fun pipeline' =>
      Stored pipeline' data := by
  have hempty : Stored { pipeline with file := some [], buffer := [] } [] :=
    ⟨rfl, h.size, h.digest, rfl, h.finished⟩
  rw [← h.buffer] at hn ⊢
  exact hempty.write hn

/-- A chunk is received behind the data. -/
theorem Received.append (h : Received pipeline data) {chunk : Option Chain}
    (hn : (data ++ bytesOf [chunk]).length ≤ n) :
    Meets (host.Holds n) (pipeline.append host chunk) fun pipeline' => Received pipeline'
      (data ++ bytesOf [chunk]) := by
  have hfinished : pipeline.finished = false := by
    cases h with | memory h _ | file h _ => exact h.finished
  unfold UploadPipeline.append
  rw [if_neg (by simp [hfinished])]
  cases chunk with
  | none => exact .ok (by simpa [bytesOf] using h)
  | some chunk =>
    have hbytes : bytesOf [some chunk] = chunk.buffers.flatten := by simp [bytesOf]
    rw [hbytes] at hn ⊢
    simp only
    cases h with
    | memory h hlength =>
      simp only [h.buffer, le_remaining_iff hlength]
      split
      next hfits =>
        refine .ok (.memory ⟨h.file, h.size, h.digest, ?_, h.finished⟩
          (by rw [length_append]; exact hfits.2))
        rw [flatten_append, h.buffer]
      next hmore =>
        have hdata : data.length ≤ n := by
          rw [length_append] at hn
          omega
        have hcreate : Meets (host.Holds n) host.createUploadFile fun _ => True :=
          ⟨fun _ _ => trivial, fun hhost => ⟨_, hhost.1.creates⟩⟩
        rw [if_pos h.file]
        refine hcreate.bind fun _ _ => (h.moved hdata).bind fun _ hmoved => (hmoved.write hn).mono
          fun _ hstored => .file hstored ?_
        rw [length_append]
        exact not_le.1 fun hle => hmore ⟨h.file, hle⟩
    | file h hlength =>
      simp only [h.file, reduceCtorEq, false_and, if_false]
      refine (h.write hn).mono fun _ hstored => .file hstored ?_
      rw [length_append]
      omega

theorem Received.run :
    ∀ {pipeline : UploadPipeline} {data : Data} (_ : Received pipeline data)
    {chunks : List (Option Chain)} (_ : (data ++ bytesOf chunks).length ≤ n),
    Meets (host.Holds n) (chunks.foldlM (UploadPipeline.append host) pipeline)
      fun pipeline' => Received pipeline' (data ++ bytesOf chunks)
  | _, _, h, [], _ => .ok (by simpa [bytesOf] using h)
  | _, data, h, chunk :: chunks, hn => by
    have hbytes : data ++ bytesOf (chunk :: chunks) =
      data ++ bytesOf [chunk] ++ bytesOf chunks := by simp [bytesOf]
    rw [hbytes] at hn ⊢
    have hfirst : (data ++ bytesOf [chunk]).length ≤ n := by
      rw [length_append] at hn
      omega
    rw [foldlM_cons]
    exact (h.append hfirst).bind fun _ h' => h'.run hn

/-! ## Bodies -/

theorem received_nothing : Received {} [] :=
  .memory ⟨rfl, rfl, rfl, rfl, rfl⟩ (by decide)

/-- All beginnings of a body fit exactly if it fits as a whole. -/
theorem fits_iff (chunks : List (Option Chain)) :
    (∀ front, front <+: chunks → (bytesOf front).length ≤ requestMemoryLimit) ↔
    (bytesOf chunks).length ≤ requestMemoryLimit := by
  refine ⟨fun h => h chunks (prefix_refl _), ?_⟩
  rintro hfits _ ⟨rest, rfl⟩
  rw [bytesOf, flatMap_append, length_append] at hfits
  exact (Nat.le_add_right _ _).trans hfits

theorem Received.finish {Digest : Type} (sha256 : Data → Digest) (h : Received pipeline data) :
    pipeline.finish sha256 = .ok (if data.length ≤ requestMemoryLimit then .memory data
      else .temporary data data.length (sha256 data)) := by
  unfold UploadPipeline.finish
  cases h with
  | memory h hlength => simp [h.finished, h.file, h.buffer, hlength]
  | file h hlength => simp [h.finished, h.file, h.size, h.digest, not_le.2 hlength]

/-- **A body is put together from its chunks.**  It is in memory exactly if every beginning of it
fits, and otherwise in a temporary file with the size and the digest of the whole; the chunks in
memory never exceed the limit, and what is left of it is their difference; and on a reliable system
every body that a file can hold is received. -/
theorem upload_reassembles {Digest : Type} (host : UploadHost) (sha256 : Data → Digest)
    (chunks : List (Option Chain)) : (∀ body, upload host sha256 chunks = .ok body →
      ((∀ front, front <+: chunks → (bytesOf front).length ≤ requestMemoryLimit) →
      body = .memory (bytesOf chunks)) ∧
      ((∃ front, front <+: chunks ∧ requestMemoryLimit < (bytesOf front).length) →
        body = .temporary (bytesOf chunks) (bytesOf chunks).length (sha256 (bytesOf chunks)))) ∧
    (∀ pipeline, chunks.foldlM (UploadPipeline.append host) {} = .ok pipeline →
      pipeline.buffer.flatten.length ≤ requestMemoryLimit ∧
      remaining requestMemoryLimit pipeline.buffer.flatten.length =
        requestMemoryLimit - pipeline.buffer.flatten.length) ∧
    (host.Reliable → (bytesOf chunks).length < 2 ^ 63 →
      ∃ body, upload host sha256 chunks = .ok body) := by
  obtain ⟨hrun, hok⟩ := @Received.run host _ _ _ received_nothing chunks (le_refl _)
  rw [nil_append] at hrun hok
  refine ⟨fun body hbody => ?_, fun pipeline hpipeline => ?_, fun hhost hlength => ?_⟩
  · obtain ⟨pipeline, hpipeline, hfinish⟩ := bind_eq_ok_iff.1 hbody
    rw [(hrun pipeline hpipeline).finish sha256] at hfinish
    cases hfinish
    rw [fits_iff]
    refine ⟨fun hfits => if_pos hfits, ?_⟩
    rintro ⟨front, hprefix, hmore⟩
    exact if_neg fun hfits => absurd ((fits_iff chunks).2 hfits front hprefix) (by omega)
  · have hbuffer : pipeline.buffer.flatten.length ≤ requestMemoryLimit := by
      cases hrun pipeline hpipeline with
      | memory h hlength => rwa [h.buffer]
      | file h hlength => simp [h.buffer]
    refine ⟨hbuffer, ?_⟩
    unfold remaining requestMemoryLimit at *
    omega
  · obtain ⟨pipeline, hpipeline⟩ := hok ⟨hhost, hlength⟩
    exact ⟨_, bind_eq_ok_iff.2 ⟨pipeline, hpipeline, (hrun pipeline hpipeline).finish sha256⟩⟩

end Idhan.Http
