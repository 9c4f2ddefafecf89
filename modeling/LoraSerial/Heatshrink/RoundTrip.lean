import LoraSerial.Heatshrink.Coder
import LoraSerial.LinkLayer.RoundTrip

/-!
Owns the results about the heatshrink coder as a whole: its runs under any schedule of
calls, the round trip through both halves, and what `Compress` and `Decompress` return for a
payload.
-/

namespace LoraSerial.Heatshrink

open LinkLayer Library.BitStream Library.Lzss

/-- The coder of the link layer. -/
def coder : LinkLayer.Heatshrink where
  encoder := Encoder.coder
  decoder := Decoder.coder

/-- `out` is the greedy parse of the text, padded to a byte. -/
def Packs (text out : Bytes) : Prop :=
  ∃ padding, padding < 8 ∧ bits out =
    spell windowBits lookaheadBits (greedy text 0) ++ List.replicate padding false

/-- The packed form is determined by the text. -/
theorem Packs.unique {text left right : Bytes} (packsLeft : Packs text left)
    (packsRight : Packs text right) : left = right := by
  rcases packsLeft with ⟨padding, short, bitsLeft⟩
  rcases packsRight with ⟨padding', short', bitsRight⟩
  have lengthLeft := congrArg List.length bitsLeft
  have lengthRight := congrArg List.length bitsRight
  rw [length_bits, List.length_append, List.length_replicate] at lengthLeft lengthRight
  have same : padding = padding' := by omega
  subst same
  exact bits_injective (bitsLeft.trans bitsRight.symm)

/-- Every text has one. -/
theorem exists_packs (text : Bytes) : ∃ out, Packs text out := by
  rcases exists_bytes (spell windowBits lookaheadBits (greedy text 0)) with
    ⟨out, padding, short, packed⟩
  exact ⟨out, padding, short, packed⟩

/-- A packed text decodes to the text. -/
theorem Packs.decodeBytes {text out : Bytes} (packs : Packs text out) :
    HeatshrinkDecoder.decodeBytes out = text := by
  rcases packs with ⟨padding, short, packed⟩
  have expands : expand (greedy text 0) [] = text.reverse := expand_greedy text (Nat.zero_le _)
  rw [HeatshrinkDecoder.decodeBytes, packed]
  exact decode_spell (greedy_fits text 0) (by simp only [windowBits, lookaheadBits]; omega)
    expands

theorem decodeBytes_nil : HeatshrinkDecoder.decodeBytes [] = [] := by
  rw [HeatshrinkDecoder.decodeBytes, decode, bits_nil, parse]
  rfl

/-- Nine bits a byte at most. -/
theorem Packs.length_le {text out : Bytes} (packs : Packs text out) :
    8 * out.length ≤ 9 * text.length + 7 := by
  rcases packs with ⟨padding, short, packed⟩
  have total := congrArg List.length packed
  have bound := length_spell_greedy text 0
  rw [length_bits, List.length_append, List.length_replicate] at total
  omega

/-- What is out begins the packed form of what was taken, before `finish` and after it. -/
theorem HeatshrinkEncoder.Sent.output_packs {hse : HeatshrinkEncoder} {text sent packed : Bytes}
    (means : HeatshrinkEncoder.Sent hse text sent) (packs : Packs text packed) :
    sent <+: packed := by
  by_cases done : hse.state = .done
  · have sentPacks : Packs text sent := means.output_done done
    cases sentPacks.unique packs
    exact List.prefix_refl _
  · rcases packs with ⟨padding, -, bitsPacked⟩
    have begun := means.output_begins (fun _ => rfl) done
    rw [List.append_nil] at begun
    have inside : bits sent <+: bits packed := by
      rw [bitsPacked]
      exact begun.trans (List.prefix_append _ _)
    exact prefix_of_bits inside

/-! ## Runs -/

/-- Over any calls, the decoder's output begins what the bytes taken decode to, whatever
follows them, and is all of it once a poll returned POLL_EMPTY or `finish` returns
FINISH_DONE. -/
theorem decoder_run (calls : List HeatshrinkDecoder.Call) :
    ∃ session, HeatshrinkDecoder.Session.start.run calls = some session ∧
      (∀ rest, session.output <+: HeatshrinkDecoder.decodeBytes (session.taken ++ rest)) ∧
      (session.drained = true ∨ session.hsd.finish = false →
        session.output = HeatshrinkDecoder.decodeBytes session.taken) := by
  rcases HeatshrinkDecoder.Session.run_faithful HeatshrinkDecoder.Session.start_faithful calls
    with ⟨session, ahead, ran, faithful⟩
  refine ⟨session, ran, faithful.output_begins, ?_⟩
  rintro (drained | finished)
  · exact faithful.output_eq (faithful.drained drained)
  · exact faithful.output_eq (faithful.starved_of_finish finished)

/-- Over any calls on an encoder that may have been used before, the output begins the packed
form of the bytes taken, and until `finish` the bits out begin the greedy parse of whatever the
text becomes; once `finish` returned FINISH_DONE the output is the whole packed form, at most
nine eighths of the bytes taken and a byte. -/
theorem encoder_run {used : HeatshrinkEncoder}
    (index : used.searchIndex.length = encoderBufSize) (calls : List HeatshrinkEncoder.Call) :
    ∃ session, (HeatshrinkEncoder.Session.start used).run calls = some session ∧
      (∀ packed, Packs session.taken packed → session.output <+: packed) ∧
      (session.hse.finishing = false → ∀ future, bits session.output <+:
        spell windowBits lookaheadBits (greedy (session.taken ++ future) 0)) ∧
      (session.done = true → Packs session.taken session.output ∧
        8 * session.output.length ≤ 9 * session.taken.length + 7) := by
  rcases HeatshrinkEncoder.Session.run_faithful
    (HeatshrinkEncoder.Session.start_faithful index) calls with ⟨session, ran, faithful⟩
  refine ⟨session, ran, fun _ => faithful.means.output_packs, ?_, ?_⟩
  · intro unfinished future
    refine faithful.means.output_begins (fun finishing => ?_) fun done => ?_
    · rw [unfinished] at finishing
      cases finishing
    · have finishing := faithful.means.finishing_of_done done
      rw [unfinished] at finishing
      cases finishing
  · intro done
    have packs : Packs session.taken session.output :=
      faithful.means.output_done (faithful.done done)
    exact ⟨packs, packs.length_le⟩

/-- Seven equal bytes, an early poll, and what is left after `finish`. -/
def sevens : List HeatshrinkEncoder.Call :=
  [.sink (List.replicate 7 7), .poll 3, .finish, .poll 8, .finish]

theorem encoder_run_sevens :
    HeatshrinkEncoder.static.searchIndex.length = encoderBufSize ∧
      ∃ session, (HeatshrinkEncoder.Session.start HeatshrinkEncoder.static).run sevens =
          some session ∧
        (∀ packed, Packs session.taken packed → session.output <+: packed) ∧
        (session.hse.finishing = false → ∀ future, bits session.output <+:
          spell windowBits lookaheadBits (greedy (session.taken ++ future) 0)) ∧
        (session.done = true → Packs session.taken session.output ∧
          8 * session.output.length ≤ 9 * session.taken.length + 7) :=
  ⟨List.length_replicate, encoder_run List.length_replicate sevens⟩

/-- Whatever the schedules of the two halves, and however much of the encoder's output the
decoder was given: what comes out of the decoder begins what the encoder took, and is all of it
once both have finished. -/
theorem schedules_roundTrip {used : HeatshrinkEncoder}
    (index : used.searchIndex.length = encoderBufSize)
    {encoderCalls : List HeatshrinkEncoder.Call} {encoded : HeatshrinkEncoder.Session}
    (encoderRan : (HeatshrinkEncoder.Session.start used).run encoderCalls = some encoded)
    {decoderCalls : List HeatshrinkDecoder.Call} {decoded : HeatshrinkDecoder.Session}
    (decoderRan : HeatshrinkDecoder.Session.start.run decoderCalls = some decoded)
    (passed : decoded.taken <+: encoded.output) :
    decoded.output <+: encoded.taken ∧
      (encoded.done = true → decoded.taken = encoded.output → decoded.hsd.finish = false →
        decoded.output = encoded.taken) := by
  rcases HeatshrinkEncoder.Session.run_faithful
    (HeatshrinkEncoder.Session.start_faithful index) encoderCalls with
    ⟨session, ran, sends⟩
  rw [encoderRan] at ran
  cases ran
  rcases HeatshrinkDecoder.Session.run_faithful HeatshrinkDecoder.Session.start_faithful
    decoderCalls with ⟨session, ahead, ran, faithful⟩
  rw [decoderRan] at ran
  cases ran
  constructor
  · rcases exists_packs encoded.taken with ⟨packed, packs⟩
    rcases passed.trans (sends.means.output_packs packs) with ⟨rest, whole⟩
    rw [← packs.decodeBytes, ← whole]
    exact faithful.output_begins rest
  · intro done all finished
    have packs : Packs encoded.taken encoded.output := sends.means.output_done (sends.done done)
    rw [← packs.decodeBytes, ← all]
    exact faithful.output_eq (faithful.starved_of_finish finished)

private theorem sevens_done :
    ((HeatshrinkEncoder.Session.start HeatshrinkEncoder.static).run sevens).map
      (fun session => (session.output, session.done)) = some ([131, 128, 20], true) := by
  decide +kernel

/-- The packed bytes in two chunks, and a poll that stops in the back reference. -/
private theorem unpacked_taken :
    (HeatshrinkDecoder.Session.start.run
      [.sink [131], .sink [128, 20], .poll 4, .poll 9]).map HeatshrinkDecoder.Session.taken =
        some [131, 128, 20] := by
  decide +kernel

theorem schedules_roundTrip_sevens : ∃ encoded decoded,
    (HeatshrinkEncoder.Session.start HeatshrinkEncoder.static).run sevens = some encoded ∧
      encoded.done = true ∧
      HeatshrinkDecoder.Session.start.run [.sink [131], .sink [128, 20], .poll 4, .poll 9] =
        some decoded ∧
      decoded.taken = encoded.output ∧ decoded.output <+: encoded.taken ∧
      (encoded.done = true → decoded.taken = encoded.output → decoded.hsd.finish = false →
        decoded.output = encoded.taken) := by
  rcases Option.map_eq_some_iff.mp sevens_done with ⟨encoded, encoderRan, result⟩
  rcases Option.map_eq_some_iff.mp unpacked_taken with ⟨decoded, decoderRan, taken⟩
  have done : encoded.done = true := congrArg Prod.snd result
  have passed : decoded.taken = encoded.output := taken.trans (congrArg Prod.fst result).symm
  exact ⟨encoded, decoded, encoderRan, done, decoderRan, passed,
    schedules_roundTrip List.length_replicate encoderRan decoderRan (passed ▸ List.prefix_refl _)⟩

/-! ## Compress -/

/-- FINISH_DONE means that the packed text is out. -/
private theorem packs_of_finish {flag : Bool} {encoder : Encoder} {text out : Bytes}
    (runs : Encoder.Runs flag encoder text out) (finished : encoder.1.finish.2 = false) :
    Packs text out := by
  have done : encoder.1.state = .done := by
    rw [HeatshrinkEncoder.finish] at finished
    by_cases idle : encoder.1.state = .notFull
    · simp [idle] at finished
    · simpa [idle] using finished
  exact runs.1.output_done done

/-- What is out is never longer than the packed text. -/
private theorem length_le_of_runs {flag : Bool} {encoder : Encoder} {taken rest out packed : Bytes}
    (runs : Encoder.Runs flag encoder taken out) (ended : flag = true → rest = [])
    (packs : Packs (taken ++ rest) packed) : out.length ≤ packed.length := by
  rcases packs with ⟨padding, -, bitsPacked⟩
  have total := congrArg List.length bitsPacked
  rw [length_bits, List.length_append, List.length_replicate] at total
  by_cases done : encoder.1.state = .done
  · have nothing : rest = [] := by
      cases flag with
      | true => exact ended rfl
      | false =>
          have finishing := runs.1.finishing_of_done done
          rw [runs.2 rfl] at finishing
          cases finishing
    subst nothing
    rw [List.append_nil] at total
    rcases runs.1.output_done done with ⟨padding', short, bitsOut⟩
    have length := congrArg List.length bitsOut
    rw [length_bits, List.length_append, List.length_replicate] at length
    omega
  · have follows : encoder.1.MayFollow rest := by
      intro finishing
      cases flag with
      | true => exact ended rfl
      | false =>
          rw [runs.2 rfl] at finishing
          cases finishing
    have begun := (runs.1.output_begins follows done).length_le
    rw [length_bits] at begun
    omega

/-- `Compress` returns the packed text when it is shorter than the text, and -1 otherwise. -/
theorem compress_coder_iff {src : Bytes} {cap : Nat} (roomy : src.length ≤ cap) (out : Bytes) :
    compress coder src cap = some out ↔ Packs src out ∧ out.length < src.length := by
  have driven := Encoder.coder_kept.drive src cap
  rw [compress]
  constructor
  · intro compressed
    cases ran : coder.encoder.drive src cap with
    | running => simp [ran] at compressed
    | full => simp [ran] at compressed
    | done result =>
        simp only [ran, Option.ite_none_left_eq_some, Option.some.injEq] at compressed
        rcases compressed with ⟨shorter, rfl⟩
        rcases driven.2 result ran with ⟨flag, encoder, runs, finished⟩
        exact ⟨packs_of_finish runs finished, by omega⟩
  · rintro ⟨packs, shorter⟩
    cases ran : coder.encoder.drive src cap with
    | running => exact absurd ran (StreamCoder.drive_stops src cap)
    | full =>
        rcases driven.1 ran with ⟨flag, encoder, taken, rest, full, runs, split, ended, filled⟩
        subst split
        have bound := length_le_of_runs runs ended packs
        omega
    | done result =>
        rcases driven.2 result ran with ⟨flag, encoder, runs, finished⟩
        cases (packs_of_finish runs finished).unique packs
        simp only [if_neg (Nat.not_le_of_lt shorter)]

theorem compress_coder_iff_zeros :
    (List.replicate 40 (0 : UInt8)).length ≤ maxPay + 16 ∧
      (compress coder (List.replicate 40 0) (maxPay + 16) = some [128, 64] ↔
        Packs (List.replicate 40 0) [128, 64] ∧
          [(128 : UInt8), 64].length < (List.replicate 40 (0 : UInt8)).length) :=
  ⟨by decide, compress_coder_iff (by decide) [128, 64]⟩

/-! ## Decompress -/

/-- A poll loop of the decoder that returned left room, and nothing to finish. -/
private theorem pollLoop_room {cap fuel : Nat} {decoder : Decoder.coder.State} {out : Bytes}
    {result : Decoder.coder.State × Bytes}
    (returned : Decoder.coder.pollLoop cap fuel decoder out = .done result) :
    result.2.length < cap ∧ (Decoder.coder.finish result.1).2 = false := by
  induction fuel generalizing decoder out with
  | zero => simp [StreamCoder.pollLoop] at returned
  | succ fuel inductionHypothesis =>
      unfold StreamCoder.pollLoop at returned
      by_cases full : cap ≤ out.length
      · simp [full] at returned
      · rw [if_neg full] at returned
        by_cases more : (Decoder.coder.poll decoder (cap - out.length)).more = true
        · simp only [more, if_true] at returned
          exact inductionHypothesis returned
        · simp only [more] at returned
          cases returned
          rcases Decoder.coder_poll_empty decoder (cap - out.length) (by simpa using more) with
            ⟨short, quiet⟩
          refine ⟨?_, quiet⟩
          rw [List.length_append]
          omega

private theorem sinkLoop_room {cap fuel : Nat} {decoder : Decoder.coder.State}
    {input out : Bytes} {result : Decoder.coder.State × Bytes} (nonempty : input ≠ [])
    (returned : Decoder.coder.sinkLoop cap fuel decoder input out = .done result) :
    result.2.length < cap ∧ (Decoder.coder.finish result.1).2 = false := by
  induction fuel generalizing decoder input out with
  | zero => simp [StreamCoder.sinkLoop] at returned
  | succ fuel inductionHypothesis =>
      unfold StreamCoder.sinkLoop at returned
      rw [if_neg nonempty] at returned
      cases ran : Decoder.coder.pollLoop cap (cap + 2) (Decoder.coder.sink decoder input).1 out
        with
      | running => simp [ran] at returned
      | full => simp [ran] at returned
      | done middle =>
          simp only [ran] at returned
          by_cases used : input.drop (Decoder.coder.sink decoder input).2 = []
          · rw [used] at returned
            cases fuel with
            | zero => simp [StreamCoder.sinkLoop] at returned
            | succ fuel =>
                unfold StreamCoder.sinkLoop at returned
                rw [if_pos rfl] at returned
                cases returned
                exact pollLoop_room ran
          · exact inductionHypothesis used returned

/-- `Decompress` returns what the bytes decode to, which is all or nothing: it fails exactly
when the text would leave no room in the buffer. -/
theorem decompress_coder_iff (src : Bytes) (cap : Nat) (out : Bytes) :
    decompress coder src cap = some out ↔
      out = HeatshrinkDecoder.decodeBytes src ∧ (src = [] ∨ out.length < cap) := by
  have driven := Decoder.coder_kept.drive src cap
  have finished : ∀ {flag : Bool} {decoder : Decoder} {taken out : Bytes},
      Decoder.Runs flag decoder taken out → decoder.1.finish = false →
        out = HeatshrinkDecoder.decodeBytes taken := by
    intro flag decoder taken out ⟨ahead, faithful⟩ idle
    exact faithful.output_eq (faithful.starved_of_finish idle)
  rw [decompress]
  by_cases empty : src = []
  · subst empty
    have nothing : coder.decoder.drive [] cap = .done [] := rfl
    rw [nothing]
    simp only [Option.some.injEq, true_or, and_true, decodeBytes_nil]
    exact eq_comm
  constructor
  · intro decompressed
    cases ran : coder.decoder.drive src cap with
    | running => simp [ran] at decompressed
    | full => simp [ran] at decompressed
    | done result =>
        simp only [ran, Option.some.injEq] at decompressed
        subst decompressed
        rcases driven.2 result ran with ⟨flag, decoder, runs, idle⟩
        refine ⟨finished runs idle, Or.inr ?_⟩
        rw [StreamCoder.drive] at ran
        cases sunk : coder.decoder.sinkLoop cap (src.length + 1) coder.decoder.reset src [] with
        | running => simp [sunk] at ran
        | full => simp [sunk] at ran
        | done middle =>
            rcases sinkLoop_room empty sunk with ⟨room, quiet⟩
            have quiet' : (coder.decoder.finish middle.1).2 = false := quiet
            simp only [sunk, StreamCoder.finishLoop, quiet', Bool.false_eq_true, if_false] at ran
            cases ran
            exact room
  · rintro ⟨rfl, room⟩
    cases ran : coder.decoder.drive src cap with
    | running => exact absurd ran (StreamCoder.drive_stops src cap)
    | full =>
        rcases driven.1 ran with ⟨flag, decoder, taken, rest, out, ⟨ahead, faithful⟩, split, -,
          filled⟩
        have begun := (faithful.output_begins rest).length_le
        rw [← split] at begun
        have bound : out.length ≤ (HeatshrinkDecoder.decodeBytes src).length := begun
        rcases room with none | room
        · exact absurd none empty
        · omega
    | done result =>
        rcases driven.2 result ran with ⟨flag, decoder, runs, idle⟩
        rw [finished runs idle]

/-- The decoder gives back every payload the encoder shrinks. -/
theorem coder_inverts : coder.Inverts := by
  intro raw c short compressed
  rcases (compress_coder_iff (by omega) c).mp compressed with ⟨packs, -⟩
  refine (decompress_coder_iff c decMax raw).mpr ⟨packs.decodeBytes.symm, Or.inr ?_⟩
  rw [decMax]
  omega

/-! ## Payloads -/

/-- What a payload becomes on the wire: its packed form when compression is on and that is
shorter, itself otherwise. Either way the peer decodes it to the payload. -/
theorem packPayload_coder {RING : Nat} (link : Link RING) {flags : UInt8}
    (plain : hasFlag flags fComp = false) {raw : Bytes} (short : raw.length ≤ maxPay) :
    ∃ packed, Packs raw packed ∧
      link.packPayload coder flags raw =
        (if link.cfg.compress = true ∧ packed.length < raw.length then (flags ||| fComp, packed)
        else (flags, raw)) ∧
      decodePayload coder (link.packPayload coder flags raw).1
        (link.packPayload coder flags raw).2 = some raw := by
  rcases exists_packs raw with ⟨packed, packs⟩
  have compressed := fun out => @compress_coder_iff raw (maxPay + 16) (by omega) out
  have closed : link.packPayload coder flags raw =
      if link.cfg.compress = true ∧ packed.length < raw.length then (flags ||| fComp, packed)
      else (flags, raw) := by
    by_cases shorter : packed.length < raw.length
    · have nonempty : 0 < packed.length := by
        rcases Nat.eq_zero_or_pos packed.length with none | some
        · have empty := packs.decodeBytes
          rw [List.length_eq_zero_iff.mp none, decodeBytes_nil] at empty
          rw [← empty] at shorter
          exact absurd shorter (Nat.not_lt_zero _)
        · exact some
      simp [Link.packPayload, (compressed packed).mpr ⟨packs, shorter⟩, shorter, nonempty,
        Nat.zero_lt_of_lt shorter]
    · have none : compress coder raw (maxPay + 16) = none := by
        cases ran : compress coder raw (maxPay + 16) with
        | none => rfl
        | some out =>
            rcases (compressed out).mp ran with ⟨packs', shorter'⟩
            rw [packs'.unique packs] at shorter'
            exact absurd shorter' shorter
      simp [Link.packPayload, none, shorter]
  refine ⟨packed, packs, closed, ?_⟩
  rw [closed]
  split
  next taken =>
    rw [decodePayload, hasFlag_or, show hasFlag fComp fComp = true by decide, Bool.or_true,
      if_pos rfl]
    exact coder_inverts raw packed short ((compressed packed).mpr ⟨packs, taken.2⟩)
  next =>
    have fits : ¬decMax < raw.length := by
      rw [decMax]
      omega
    simp only [decodePayload, plain, Bool.false_eq_true, if_false, if_neg fits]

theorem packPayload_coder_zeros :
    (hasFlag fData fComp = false ∧ (List.replicate 40 (0 : UInt8)).length ≤ maxPay) ∧
      ∃ packed, Packs (List.replicate 40 0) packed ∧
        (Link.zeroed { Config.default with compress := true } : Link 64).packPayload coder fData
            (List.replicate 40 0) =
          (if (Link.zeroed { Config.default with compress := true } : Link 64).cfg.compress =
                true ∧
              packed.length < (List.replicate 40 (0 : UInt8)).length
          then (fData ||| fComp, packed) else (fData, List.replicate 40 0)) ∧
        decodePayload coder
          ((Link.zeroed { Config.default with compress := true } : Link 64).packPayload coder
            fData (List.replicate 40 0)).1
          ((Link.zeroed { Config.default with compress := true } : Link 64).packPayload coder
            fData (List.replicate 40 0)).2 = some (List.replicate 40 0) :=
  ⟨by decide, packPayload_coder _ (by decide) (by decide)⟩

/-! ## A frame -/

/-- One end of a pair that seals and compresses. -/
def sealingEnd (addr peer epoch : UInt8) : Link 64 :=
  (Link.zeroed .default : Link 64).init
    { Receiver.sharedKeyConfig addr epoch with
      peer := peer
      compress := true }

/-- End 2 has sent a poll. -/
def pollingEnd : Link 64 :=
  ((sealingEnd 2 1 9).makePoll coder maxFrame).link

/-- End 1 has taken it. -/
def polledEnd : Link 64 :=
  ((sealingEnd 1 2 7).onRx coder
    (((sealingEnd 2 1 9).makePoll coder maxFrame).frame.getD [])).link

/-- Forty zeros go out sealed, under the second counter and packed into five bytes. -/
theorem frame_roundTrip_zeros :
    (pollingEnd.encode coder maxFrame (fData ||| fMore) 7 (List.replicate 40 0)).frame.map
      List.length = some 31 ∧
    ∃ frame h body,
      (pollingEnd.encode coder maxFrame (fData ||| fMore) 7 (List.replicate 40 0)).frame =
        some frame ∧
      frame.length ≤ 255 ∧ parseHeader frame = some (h, body) ∧ pollingEnd.Carried 7 h ∧
      ((polledEnd.trackEpoch h.epoch).authenticate coder frame h body).2 =
        .ok (some (List.replicate 40 0)) ∧
      polledEnd.onRx coder frame =
        ⟨((polledEnd.trackEpoch h.epoch).authenticate coder frame h body).1.accept h
          (some (List.replicate 40 0)), .accepted, !hasFlag (fData ||| fMore) fMore⟩ :=
  ⟨by decide +kernel, Link.frame_roundTrip coder_inverts (by decide +kernel)
    ⟨by decide +kernel, by decide +kernel, by decide +kernel, by decide +kernel⟩ (by decide) 7
    (by decide) fun _ seen => absurd seen.le_max (by decide +kernel)⟩

end LoraSerial.Heatshrink
