import Mathlib.Data.List.Induction
import RpiCam.Lib.Cells
import RpiCam.Http.Registration

/-!
# The answer of the server

`send_request` gives libcurl a buffer of 1024 bytes on its stack, and `event_send_callback` copies the body of the answer
into it, chunk by chunk.

* `Chunk` : the bytes that libcurl delivers at a time, and what is behind them in memory;
* `eventSendCallback`, `received` : a call, and the buffer after all of them;
* `sendRequestResp` : what is returned, and what is read from the buffer;
* `received_concat` : the buffer holds the last chunk alone, `text_iff` : what is then read;
* `Collected`, `collected_iff` : when an answer is collected within bounds.
-/

namespace RpiCam.Http

/-- A chunk of `size * nmemb` bytes, and the memory behind it. -/
structure Chunk where
  data : List Char
  beyond : Nat → Cell

/-- The memory at `contents`. -/
def Chunk.cell (chunk : Chunk) (i : Nat) : Cell :=
  if h : i < chunk.data.length then some chunk.data[i] else chunk.beyond (i - chunk.data.length)

def responseSize : Nat := 1024

/-- `event_send_callback`, with what it returns. -/
def eventSendCallback (response : List Cell) (chunk : Chunk) : Copied × Nat :=
  (memcpy response chunk.cell 1024, chunk.data.length)

/-- `response` after the calls. At first it is not written. -/
def received (chunks : List Chunk) : List Cell :=
  chunks.foldl (fun response chunk => (eventSendCallback response chunk).1.dest) (List.replicate responseSize none)

/-- `send_request` with the chunks of a transfer that succeeds or not: what it returns, and `resp`. There is no `resp`
without a curl object, and it is `some none` where `assign` is not defined. -/
def sendRequestResp (curl ok : Bool) (chunks : List Chunk) : Int × Option (Option (List Char)) :=
  if curl then (sendRequest ok, some (readCStr (received chunks))) else (1, none)

/-- The answer is collected: each call reads its own chunk and writes inside the buffer, and what is then read from the
buffer is the beginning of the body. -/
structure Collected (ok : Bool) (chunks : List Chunk) : Prop where
  reads : ∀ chunk ∈ chunks, ∀ response, (eventSendCallback response chunk).1.reads ≤ chunk.data.length
  writes : ∀ chunk ∈ chunks, ∀ response, (eventSendCallback response chunk).1.writes ≤ responseSize
  text : ∃ resp, (sendRequestResp true ok chunks).2 = some (some resp) ∧ resp <+: (chunks.map Chunk.data).flatten

/-! ## The buffer -/

/-- A call writes inside the buffer, whatever the chunk. -/
theorem writes_inside (response : List Cell) (chunk : Chunk) :
    (eventSendCallback response chunk).1.writes ≤ responseSize :=
  Nat.le_refl _

/-- It reads its own chunk where the chunk fills the buffer. -/
theorem reads_inside_iff (chunk : Chunk) :
    (∀ response, (eventSendCallback response chunk).1.reads ≤ chunk.data.length) ↔ 1024 ≤ chunk.data.length :=
  ⟨fun h => h [], fun h _ => h⟩

theorem received_append (chunks : List Chunk) (last : Chunk) :
    received (chunks ++ [last]) = (List.range 1024).map last.cell ++ (received chunks).drop 1024 := by
  unfold received
  rw [List.foldl_append]
  rfl

theorem length_received (chunks : List Chunk) : (received chunks).length = responseSize := by
  induction chunks using List.reverseRecOn with
  | nil => exact List.length_replicate
  | append_singleton chunks chunk ih =>
    rw [received_append, List.length_append, List.length_map, List.length_range, List.length_drop, ih, responseSize]

/-- **The buffer holds the last chunk alone**: each call starts at its beginning. -/
theorem received_concat (chunks : List Chunk) (last : Chunk) :
    received (chunks ++ [last]) = (List.range 1024).map last.cell := by
  rw [received_append, List.drop_eq_nil_of_le (show _ ≤ 1024 from (length_received chunks).le),
    List.append_nil]

theorem readCStr_received_nil : readCStr (received []) = none := rfl

theorem map_cell {chunk : Chunk} (h : 1024 ≤ chunk.data.length) :
    (List.range 1024).map chunk.cell = (chunk.data.take 1024).map some := by
  apply List.ext_getElem
  · simp [h]
  · intro i hi _
    rw [List.length_map, List.length_range] at hi
    have hlt : i < chunk.data.length := by omega
    simp [Chunk.cell, hlt]

/-- What is read after chunks that all fill the buffer begins the body, if the last one has a NUL where it is read and
begins like the first one. -/
theorem text_concat_iff {first last : Chunk} {init rest : List Chunk} (hfirst : init ++ [last] = first :: rest)
    (hall : ∀ chunk ∈ init ++ [last], 1024 ≤ chunk.data.length) :
    (∃ resp, readCStr (received (init ++ [last])) = some resp ∧ resp <+: ((init ++ [last]).map Chunk.data).flatten) ↔
      '\x00' ∈ last.data.take 1024 ∧ cStr last.data <+: first.data := by
  have hlong := hall first (hfirst ▸ List.mem_cons_self ..)
  rw [received_concat, map_cell (hall last (by simp)), readCStr_map_some, hfirst, List.map_cons, List.flatten_cons]
  by_cases hnul : '\x00' ∈ last.data.take 1024
  · obtain ⟨hsame, hlt⟩ := cStr_take hnul
    rw [if_pos hnul, hsame]
    constructor
    · rintro ⟨resp, hresp, htext⟩
      cases hresp
      exact ⟨hnul, List.prefix_of_prefix_length_le htext (List.prefix_append ..) (by omega)⟩
    · intro h
      exact ⟨_, rfl, h.2.trans (List.prefix_append ..)⟩
  · rw [if_neg hnul]
    constructor
    · rintro ⟨resp, hresp, -⟩
      cases hresp
    · intro h
      exact absurd h.1 hnul

theorem text_iff (ok : Bool) {chunks : List Chunk} (hall : ∀ chunk ∈ chunks, 1024 ≤ chunk.data.length) :
    (∃ resp, (sendRequestResp true ok chunks).2 = some (some resp) ∧ resp <+: (chunks.map Chunk.data).flatten) ↔
      ∃ first last, chunks.head? = some first ∧ chunks.getLast? = some last ∧
        '\x00' ∈ last.data.take 1024 ∧ cStr last.data <+: first.data := by
  simp only [sendRequestResp, if_true, Option.some.injEq]
  cases chunks using List.reverseRecOn with
  | nil => simp [readCStr_received_nil]
  | append_singleton init last =>
    obtain ⟨first, rest, hfirst⟩ := List.exists_cons_of_ne_nil (List.concat_ne_nil last init)
    rw [text_concat_iff hfirst hall, List.getLast?_concat, hfirst, List.head?_cons]
    constructor
    · intro h
      exact ⟨first, last, rfl, rfl, h⟩
    · rintro ⟨f, l, hf, hl, h⟩
      cases hf
      cases hl
      exact h

/-- **An answer is collected** exactly where there are chunks, all of them of 1024 bytes or more, the last of them has a
NUL among its first 1024 bytes, and begins like the first one up to it. -/
theorem collected_iff (ok : Bool) (chunks : List Chunk) :
    Collected ok chunks ↔
      (∀ chunk ∈ chunks, 1024 ≤ chunk.data.length) ∧
        ∃ first last, chunks.head? = some first ∧ chunks.getLast? = some last ∧
          '\x00' ∈ last.data.take 1024 ∧ cStr last.data <+: first.data := by
  have hreads : (∀ chunk ∈ chunks, ∀ response, (eventSendCallback response chunk).1.reads ≤ chunk.data.length) ↔
      ∀ chunk ∈ chunks, 1024 ≤ chunk.data.length :=
    forall₂_congr fun chunk _ => reads_inside_iff chunk
  constructor
  · intro h
    have hall := hreads.mp h.reads
    exact ⟨hall, (text_iff ok hall).mp h.text⟩
  · rintro ⟨hall, h⟩
    exact ⟨hreads.mpr hall, fun chunk _ response => writes_inside response chunk, (text_iff ok hall).mpr h⟩

/-- A body of two bytes. -/
def shortChunk : Chunk where
  data := "ok".toList
  beyond _ := none

theorem short_answer : ¬ Collected true [shortChunk] ∧ (sendRequestResp true true [shortChunk]).2 = some none := by
  constructor
  · intro h
    have hreads := h.reads shortChunk (List.mem_singleton_self _)
    exact absurd ((reads_inside_iff shortChunk).mp hreads) (by decide)
  · decide +kernel

end RpiCam.Http
