/-
# The shell

`lox_shell_exec_command` hands a command line to a shell library, which may
print and call the commands registered with it, in any way: an interaction with
the answers of the commands (`MshRun`). All of it goes into one buffer of the
caller. Whatever the library does, the buffer keeps its size and holds a
terminated string (`shell_bounded`), which is what a screen of that size shows
(`shell_shows`): printing goes on at a cursor, and a command replaces the text.
What a library only prints is there up to the size of the buffer
(`shell_prints`).

The shell library is not part of the repository. `blackbox` and `events` leave
the cursor where it was, so what is printed after them starts in the middle of
their text, or is not seen.

Key definitions: `shellAppend`, `ShellCmd.exec`, `MshRun`, `shellExecCommand`,
`Screen`, `MshRun.show`, `ShellCtx.Shows`.
Key theorems: `ShellCtx.Wf.exec`, `shell_bounded`, `ShellCtx.Shows.exec`,
`shell_shows`, `shell_prints`.
-/
import Loxguard.Bus
import Loxguard.Format.Report

namespace Loxguard

open Lib Lib.Decimal

variable {P : Platform}

/-! ### The buffer -/

/-- Bytes written over a buffer from `pos` on. -/
def overwrite (buf : List UInt8) (pos : ℕ) (bytes : List UInt8) : List UInt8 :=
  buf.take pos ++ bytes ++ buf.drop (pos + bytes.length)

theorem length_overwrite {buf bytes : List UInt8} {pos : ℕ} (h : pos + bytes.length ≤ buf.length) :
    (overwrite buf pos bytes).length = buf.length := by
  simp only [overwrite, List.length_append, List.length_take, List.length_drop]
  omega

theorem mem_overwrite {bytes : List UInt8} {c : UInt8} (h : c ∈ bytes) (buf : List UInt8) (pos : ℕ) :
    c ∈ overwrite buf pos bytes :=
  List.mem_append_left _ (List.mem_append_right _ h)

/-- What a buffer reads as when a string is written before its terminator. -/
theorem text_overwrite {buf bytes : List UInt8} (hnul : 0 ∉ bytes) {pos : ℕ}
    (hpos : pos ≤ (bufText buf).bytes.length) :
    (bufText (overwrite buf pos (bytes ++ [0]))).bytes = (bufText buf).bytes.take pos ++ bytes := by
  have htake : buf.take pos = (bufText buf).bytes.take pos := by
    have hprefix : (bufText buf).bytes <+: buf := List.takeWhile_prefix _
    rw [List.prefix_iff_eq_take.mp hprefix, List.take_take, Nat.min_eq_left hpos]
  have hall : ∀ c ∈ (bufText buf).bytes.take pos ++ bytes, (c != 0) = true := by
    intro c hc
    rw [bne_iff_ne]
    rintro rfl
    rcases List.mem_append.mp hc with hc | hc
    · exact (bufText buf).nulFree (List.mem_of_mem_take hc)
    · exact hnul hc
  show (List.takeWhile (· != 0) (buf.take pos ++ (bytes ++ [0]) ++ _)) = _
  rw [htake, ← List.append_assoc, List.append_assoc _ [0], List.takeWhile_append_of_pos hall]
  simp

/-- Written behind its terminator, nothing changes. -/
theorem text_overwrite_behind {buf : List UInt8} (hterm : 0 ∈ buf) {pos : ℕ}
    (hpos : (bufText buf).bytes.length < pos) (bytes : List UInt8) :
    (bufText (overwrite buf pos bytes)).bytes = (bufText buf).bytes := by
  obtain ⟨front, back, hbuf, hfront⟩ := List.eq_append_cons_of_mem hterm
  have hall : ∀ c ∈ front, (c != 0) = true := fun c hc => by
    simpa using fun he : c = 0 => hfront (he ▸ hc)
  have htext : ∀ l, (bufText (front ++ 0 :: l)).bytes = front := fun l => by
    show List.takeWhile (· != 0) _ = _
    rw [List.takeWhile_append_of_pos hall]
    simp
  rw [hbuf, htext] at hpos ⊢
  obtain ⟨k, hk⟩ := Nat.exists_eq_add_of_lt hpos
  have htake : (front ++ 0 :: back).take pos = front ++ 0 :: back.take k := by
    rw [hk, List.take_append, List.take_of_length_le (by omega),
      show front.length + k + 1 - front.length = k + 1 by omega]
    rfl
  rw [overwrite, htake, List.append_assoc, List.append_assoc, List.cons_append, htext]

/-! ### The commands -/

/-- `lox_shell_ctx_t`. -/
structure ShellCtx (P : Platform) where
  out : List UInt8
  cap : ℕ
  len : ℕ
  bb : Option (Blackbox P)
  report : Option Report

/-- The bytes of a string that go into the buffer. -/
def ShellCtx.taken (ctx : ShellCtx P) (s : CStr) : ℕ :=
  if ctx.cap ≤ ctx.len + s.length then (if ctx.len < ctx.cap - 1 then ctx.cap - 1 - ctx.len else 0)
  else s.length

/-- `lox_shell_append`, which is also what `lox_shell_printer` does. -/
def shellAppend (ctx : ShellCtx P) (s : CStr) : ShellCtx P :=
  if ctx.cap = 0 then ctx
  else
    let n := ctx.taken s
    if 0 < n then
      { ctx with out := overwrite ctx.out ctx.len (s.bytes.take n ++ [0]), len := ctx.len + n }
    else ctx

/-- `snprintf` of `full` into a buffer of `cap` bytes. -/
def snprintfInto (out : List UInt8) (cap : ℕ) (full : List UInt8) : List UInt8 :=
  if cap = 0 then out else overwrite out 0 (full.take (cap - 1) ++ [0])

/-- An `int` in decimal. -/
def decimalInt (n : ℤ) : List UInt8 := if n < 0 then 45 :: decimal n.natAbs else decimal n.natAbs

/-- The line of `lox_cmd_status`. -/
def statusText (r : Report) : List UInt8 :=
  ascii "status result=" ++ decimal r.result.code ++ ascii " action=" ++ decimal r.action.code ++
    ascii " reason=" ++ (r.reason.getD (.lit "NONE")).bytes ++
    ascii " persisted=" ++ decimalInt r.eventPersisted

/-- The line of `lox_cmd_blackbox` on a blackbox with events, of which `ev` is
the last. -/
def newestText (count : ℕ) (ev : ExtEvent P) : List UInt8 :=
  ascii "blackbox count=" ++ decimal count ++ ascii " last_kind=" ++ decimal ev.kind.code ++
    ascii " last_reason=" ++ (ev.reason.getD (.lit "NONE")).bytes

/-- The line of `lox_cmd_blackbox`. There are at most 16 events. -/
def blackboxText (bb : Blackbox P) : List UInt8 :=
  if bb.count = 0 then ascii "blackbox count=0"
  else newestText bb.count bb.newest

/-- The line of `lox_cmd_events`. -/
def eventsText (bus : BusStats) : List UInt8 :=
  ascii "events bus_publish=" ++ decimal bus.publishCount.toNat ++
    ascii " bus_deliver=" ++ decimal bus.deliverCount.toNat ++
    ascii " last_topic=" ++ decimal bus.lastTopic.toNat ++
    ascii " last_kind=" ++ decimal bus.lastKind.toNat

/-- The commands registered. -/
inductive ShellCmd
  | status
  | blackbox
  | events
deriving DecidableEq

/-- `lox_cmd_status`, `lox_cmd_blackbox` and `lox_cmd_events`. Only the first
sets the length. -/
def ShellCmd.exec (bus : BusStats) (ctx : ShellCtx P) : ShellCmd → ℤ × ShellCtx P
  | status =>
    match ctx.report with
    | none => (-1, ctx)
    | some report =>
      let out := snprintfInto ctx.out ctx.cap (statusText report)
      (0, { ctx with out, len := (bufText out).length })
  | blackbox =>
    match ctx.bb with
    | none => (-1, ctx)
    | some bb =>
      if ctx.cap = 0 then (-1, ctx)
      else (0, { ctx with out := snprintfInto ctx.out ctx.cap (blackboxText bb) })
  | events =>
    if ctx.cap = 0 then (-1, ctx)
    else (0, { ctx with out := snprintfInto ctx.out ctx.cap (eventsText bus) })

/-! ### The library and the call -/

/-- What the shell library does on a command line: it prints, calls commands,
and goes on by what they return, to a status. -/
inductive MshRun
  | done (rc : ℤ)
  | print (s : CStr) (next : MshRun)
  | call (cmd : ShellCmd) (next : ℤ → MshRun)

/-- The printing and the commands done on the context. -/
def MshRun.exec (bus : BusStats) : MshRun → ShellCtx P → ℤ × ShellCtx P
  | done rc, ctx => (rc, ctx)
  | print s next, ctx => next.exec bus (shellAppend ctx s)
  | call cmd next, ctx =>
    let (rc, ctx) := cmd.exec bus ctx
    (next rc).exec bus ctx

/-- The shell library: whether `msh_init` succeeds, and `msh_exec`. -/
structure MshLib where
  init : Bool
  exec : CStr → MshRun

/-- The command line without `"loxguard "` in front. -/
def commandLine (cmd : CStr) : CStr :=
  if (ascii "loxguard ").isPrefixOf cmd.bytes then
    ⟨cmd.bytes.drop 9, fun h => cmd.nulFree (List.mem_of_mem_drop h)⟩
  else cmd

/-- `lox_shell_exec_command`, with the library if it is built in. -/
def shellExecCommand (lib : Option MshLib) (bus : BusStats) (cmd : Option CStr) (bb : Option (Blackbox P))
    (report : Option Report) (out : Option (List UInt8)) : ℤ × Option (List UInt8) :=
  match cmd, out with
  | some cmd, some out =>
    if out.length = 0 then (errNull, some out)
    else
      let out := overwrite out 0 [0]
      match lib with
      | none => (errUnsupported, some out)
      | some lib =>
        if !lib.init then (errUnsupported, some out)
        else
          let (rc, ctx) := (lib.exec (commandLine cmd)).exec bus ⟨out, out.length, 0, bb, report⟩
          if rc < 0 then (errUnsupported, some ctx.out) else (ok, some ctx.out)
  | _, _ => (errNull, out)

/-! ### The buffer is never left -/

/-- The buffer has its size, the length is inside, and there is a terminator. -/
structure ShellCtx.Wf (ctx : ShellCtx P) (cap : ℕ) : Prop where
  cap_eq : ctx.cap = cap
  out : ctx.out.length = cap
  len : ctx.len < cap
  terminated : 0 ∈ ctx.out

section Wf

variable {cap : ℕ} {ctx : ShellCtx P} (h : ctx.Wf cap)
include h

/-- What is taken of a string leaves room for the terminator. -/
theorem ShellCtx.Wf.taken_le (s : CStr) : ctx.len + ctx.taken s < cap ∧ ctx.taken s ≤ s.length := by
  have hlen := h.len
  have hcap := h.cap_eq
  unfold ShellCtx.taken
  split_ifs <;> omega

/-- **Printing** stays in the buffer. -/
theorem ShellCtx.Wf.append (s : CStr) : (shellAppend ctx s).Wf cap := by
  have hlen := h.len
  have hcap := h.cap_eq
  have hout := h.out
  obtain ⟨hfits, htaken⟩ := h.taken_le s
  unfold shellAppend
  rw [if_neg (by omega)]
  dsimp only
  by_cases hroom : 0 < ctx.taken s
  · rw [if_pos hroom]
    have hbytes : (s.bytes.take (ctx.taken s) ++ [0]).length = ctx.taken s + 1 := by
      rw [List.length_append, List.length_take, Nat.min_eq_left (show _ ≤ s.bytes.length from htaken)]
      rfl
    refine ⟨hcap, ?_, hfits, mem_overwrite (by simp) _ _⟩
    exact (length_overwrite (by omega)).trans hout
  · rw [if_neg hroom]
    exact h

theorem length_snprintfInto (full : List UInt8) :
    (snprintfInto ctx.out ctx.cap full).length = cap ∧ 0 ∈ snprintfInto ctx.out ctx.cap full := by
  have hlen := h.len
  have hcap := h.cap_eq
  have hout := h.out
  unfold snprintfInto
  rw [if_neg (by omega)]
  refine ⟨?_, mem_overwrite (by simp) _ _⟩
  rw [length_overwrite]
  · exact hout
  · simp only [List.length_append, List.length_take, List.length_singleton]
    omega

/-- **A command** stays in the buffer. -/
theorem ShellCtx.Wf.command (bus : BusStats) (cmd : ShellCmd) : (cmd.exec bus ctx).2.Wf cap := by
  have hprinted : ∀ full, (bufText (snprintfInto ctx.out ctx.cap full)).length < cap := by
    intro full
    obtain ⟨hsize, hnul⟩ := length_snprintfInto h full
    have hne : List.takeWhile (· != 0) (snprintfInto ctx.out ctx.cap full) ≠
        snprintfInto ctx.out ctx.cap full := by
      intro heq
      rw [List.takeWhile_eq_self_iff] at heq
      simpa using heq 0 hnul
    have hle := (List.takeWhile_prefix (· != 0) (l := snprintfInto ctx.out ctx.cap full)).length_le
    have hlt := lt_of_le_of_ne hle fun heq => hne ((List.takeWhile_prefix _).eq_of_length heq)
    exact hlt.trans_eq hsize
  cases cmd with
  | status =>
    cases hreport : ctx.report with
    | none => simpa only [ShellCmd.exec, hreport] using h
    | some report =>
      simp only [ShellCmd.exec, hreport]
      obtain ⟨hsize, hnul⟩ := length_snprintfInto h (statusText report)
      exact ⟨h.cap_eq, hsize, hprinted _, hnul⟩
  | blackbox =>
    cases hbb : ctx.bb with
    | none => simpa only [ShellCmd.exec, hbb] using h
    | some bb =>
      simp only [ShellCmd.exec, hbb]
      split_ifs
      · exact h
      · obtain ⟨hsize, hnul⟩ := length_snprintfInto h (blackboxText bb)
        exact ⟨h.cap_eq, hsize, h.len, hnul⟩
  | events =>
    simp only [ShellCmd.exec]
    split_ifs
    · exact h
    · obtain ⟨hsize, hnul⟩ := length_snprintfInto h (eventsText bus)
      exact ⟨h.cap_eq, hsize, h.len, hnul⟩

end Wf

/-- **Any interaction** stays in the buffer. -/
theorem ShellCtx.Wf.exec {cap : ℕ} (bus : BusStats) (run : MshRun) {ctx : ShellCtx P} (h : ctx.Wf cap) :
    (run.exec bus ctx).2.Wf cap := by
  induction run generalizing ctx with
  | done rc => exact h
  | print s next ih => exact ih (h.append s)
  | call cmd next ih => exact ih _ (h.command bus cmd)

theorem wf_start {out : List UInt8} (hout : out.length ≠ 0) (bb : Option (Blackbox P))
    (report : Option Report) :
    (⟨overwrite out 0 [0], (overwrite out 0 [0]).length, 0, bb, report⟩ : ShellCtx P).Wf out.length := by
  have hlen : (overwrite out 0 [0]).length = out.length := by
    apply length_overwrite
    simp only [List.length_singleton]
    omega
  exact ⟨hlen, hlen, Nat.pos_of_ne_zero hout, mem_overwrite (List.mem_singleton_self _) _ _⟩

theorem shellExecCommand_eq {lib : MshLib} (hinit : lib.init = true) (bus : BusStats) (cmd : CStr)
    (bb : Option (Blackbox P)) (report : Option Report) {out : List UInt8} (hout : out.length ≠ 0) :
    let start : ShellCtx P := ⟨overwrite out 0 [0], (overwrite out 0 [0]).length, 0, bb, report⟩
    let r := (lib.exec (commandLine cmd)).exec bus start
    shellExecCommand (some lib) bus (some cmd) bb report (some out) =
      (if r.1 < 0 then errUnsupported else ok, some r.2.out) := by
  intro start r
  simp only [shellExecCommand, if_neg hout, hinit, Bool.not_true, Bool.false_eq_true, if_false]
  show (if r.1 < 0 then (errUnsupported, some r.2.out) else (ok, some r.2.out)) = _
  split_ifs <;> rfl

/-- **The output is bounded.** Whatever the library does with whatever command
line, a buffer of at least one byte keeps its size and holds a terminated
string; the status is `OK` or `UNSUPPORTED`. -/
theorem shell_bounded (lib : Option MshLib) (bus : BusStats) (cmd : CStr) (bb : Option (Blackbox P))
    (report : Option Report) {out : List UInt8} (hout : out.length ≠ 0) :
    ∃ rc out', shellExecCommand lib bus (some cmd) bb report (some out) = (rc, some out') ∧
      (rc = ok ∨ rc = errUnsupported) ∧ out'.length = out.length ∧ 0 ∈ out' := by
  have hstart := wf_start hout bb report
  cases lib with
  | none =>
    refine ⟨errUnsupported, _, ?_, Or.inr rfl, hstart.out, hstart.terminated⟩
    simp only [shellExecCommand, if_neg hout]
  | some lib =>
    cases hinit : lib.init with
    | false =>
      refine ⟨errUnsupported, _, ?_, Or.inr rfl, hstart.out, hstart.terminated⟩
      simp [shellExecCommand, hout, hinit]
    | true =>
      have hdone := hstart.exec bus (lib.exec (commandLine cmd))
      refine ⟨_, _, shellExecCommand_eq hinit bus cmd bb report hout, ?_, hdone.out, hdone.terminated⟩
      split_ifs
      · exact Or.inr rfl
      · exact Or.inl rfl

/-- A shell that knows `status` and says so of anything else. -/
def statusShell : MshLib :=
  ⟨true, fun cmd =>
    if cmd.bytes = ascii "status" then .call .status .done
    else .print (.lit "not ") (.print (.lit "status") (.done (-1)))⟩

theorem shell_bounded_four :
    ∃ rc out', shellExecCommand (P := .host) (some statusShell) ⟨0, 0, 0, 0⟩ (some (.lit "loxguard stat")) none
        none (some [1, 2, 3, 4]) = (rc, some out') ∧
      (rc = ok ∨ rc = errUnsupported) ∧ out'.length = 4 ∧ 0 ∈ out' :=
  shell_bounded (P := .host) (some statusShell) ⟨0, 0, 0, 0⟩ (.lit "loxguard stat") none none (by decide)

/-! ### What is shown -/

/-- What a reader of the buffer sees, and where printing goes on. -/
structure Screen where
  text : List UInt8
  cursor : ℕ

/-- Printing puts what fits at the cursor and cuts the text after it. Behind
the end of the text nothing of it is seen. -/
def Screen.print (cap : ℕ) (screen : Screen) (s : CStr) : Screen :=
  let n := min s.length (cap - 1 - screen.cursor)
  if n = 0 ∨ screen.text.length < screen.cursor then { screen with cursor := screen.cursor + n }
  else ⟨screen.text.take screen.cursor ++ s.bytes.take n, screen.cursor + n⟩

/-- A command replaces the text. Only `status` puts the cursor behind it. -/
def Screen.command (cap : ℕ) (bus : BusStats) (bb : Option (Blackbox P)) (report : Option Report)
    (screen : Screen) : ShellCmd → ℤ × Screen
  | .status =>
    match report with
    | none => (-1, screen)
    | some report =>
      let text := (statusText report).take (cap - 1)
      (0, ⟨text, text.length⟩)
  | .blackbox =>
    match bb with
    | none => (-1, screen)
    | some bb => (0, { screen with text := (blackboxText bb).take (cap - 1) })
  | .events => (0, { screen with text := (eventsText bus).take (cap - 1) })

/-- The printing and the commands done on the screen. -/
def MshRun.show (cap : ℕ) (bus : BusStats) (bb : Option (Blackbox P)) (report : Option Report) :
    MshRun → Screen → ℤ × Screen
  | done rc, screen => (rc, screen)
  | print s next, screen => next.show cap bus bb report (screen.print cap s)
  | call cmd next, screen =>
    let (rc, screen) := screen.command cap bus bb report cmd
    (next rc).show cap bus bb report screen

/-- The context shows the screen and has the caller's blackbox and report. -/
structure ShellCtx.Shows (ctx : ShellCtx P) (cap : ℕ) (bb : Option (Blackbox P)) (report : Option Report)
    (screen : Screen) : Prop extends ctx.Wf cap where
  text : (bufText ctx.out).bytes = screen.text
  len_eq : ctx.len = screen.cursor
  bb_eq : ctx.bb = bb
  report_eq : ctx.report = report

theorem nulFree_statusText (r : Report) : 0 ∉ statusText r := by
  have hd : ∀ n, 0 ∉ decimal n := not_mem_decimal (by decide)
  have hi : 0 ∉ decimalInt r.eventPersisted := by
    unfold decimalInt
    split_ifs <;> simp [hd]
  have hkeys : ∀ key ∈ [ascii "status result=", ascii " action=", ascii " reason=", ascii " persisted="],
      0 ∉ key := by
    decide
  simp only [List.forall_mem_cons] at hkeys
  obtain ⟨h1, h2, h3, h4, -⟩ := hkeys
  simp [statusText, hd, hi, h1, h2, h3, h4, CStr.nulFree]

theorem nulFree_blackboxText (bb : Blackbox P) : 0 ∉ blackboxText bb := by
  have hd : ∀ n, 0 ∉ decimal n := not_mem_decimal (by decide)
  have hkeys : ∀ key ∈ [ascii "blackbox count=0", ascii "blackbox count=", ascii " last_kind=",
      ascii " last_reason="], 0 ∉ key := by
    decide
  simp only [List.forall_mem_cons] at hkeys
  obtain ⟨h1, h2, h3, h4, -⟩ := hkeys
  unfold blackboxText
  split_ifs
  · exact h1
  · simp [newestText, hd, h2, h3, h4, CStr.nulFree]

theorem nulFree_eventsText (bus : BusStats) : 0 ∉ eventsText bus := by
  have hd : ∀ n, 0 ∉ decimal n := not_mem_decimal (by decide)
  have hkeys : ∀ key ∈ [ascii "events bus_publish=", ascii " bus_deliver=", ascii " last_topic=",
      ascii " last_kind="], 0 ∉ key := by
    decide
  simp only [List.forall_mem_cons] at hkeys
  obtain ⟨h1, h2, h3, h4, -⟩ := hkeys
  simp [eventsText, hd, h1, h2, h3, h4]

section Shows

variable {cap : ℕ} {bb : Option (Blackbox P)} {report : Option Report} {ctx : ShellCtx P} {screen : Screen}
  (h : ctx.Shows cap bb report screen)
include h

/-- **Printing** shows what the screen shows. -/
theorem ShellCtx.Shows.print (s : CStr) :
    (shellAppend ctx s).Shows cap bb report (screen.print cap s) := by
  have hlen := h.len
  have hcap := h.cap_eq
  have hcursor := h.len_eq
  have htaken : ctx.taken s = min s.length (cap - 1 - screen.cursor) := by
    unfold ShellCtx.taken
    split_ifs <;> omega
  have hwf := h.toWf.append s
  unfold shellAppend Screen.print at *
  rw [if_neg (by omega)] at *
  dsimp only at *
  rw [← htaken] at *
  by_cases hroom : 0 < ctx.taken s
  · rw [if_pos hroom] at *
    have hnul : 0 ∉ s.bytes.take (ctx.taken s) := fun hmem => s.nulFree (List.mem_of_mem_take hmem)
    by_cases hbehind : screen.text.length < screen.cursor
    · rw [if_pos (Or.inr hbehind)]
      refine ⟨hwf, ?_, congrArg (· + _) hcursor, h.bb_eq, h.report_eq⟩
      exact (text_overwrite_behind h.terminated (by rw [h.text]; omega) _).trans h.text
    · rw [if_neg (by omega)]
      refine ⟨hwf, ?_, congrArg (· + _) hcursor, h.bb_eq, h.report_eq⟩
      rw [text_overwrite hnul (by rw [h.text]; omega), h.text, hcursor]
  · rw [if_neg hroom] at *
    rw [if_pos (Or.inl (Nat.eq_zero_of_not_pos hroom)), Nat.eq_zero_of_not_pos hroom]
    exact ⟨hwf, h.text, hcursor, h.bb_eq, h.report_eq⟩

theorem text_snprintfInto {full : List UInt8} (hnul : 0 ∉ full) :
    (bufText (snprintfInto ctx.out ctx.cap full)).bytes = full.take (cap - 1) := by
  have hlen := h.len
  have hcap := h.cap_eq
  unfold snprintfInto
  rw [if_neg (by omega), text_overwrite (fun hmem => hnul (List.mem_of_mem_take hmem)) (Nat.zero_le _), hcap]
  rfl

/-- **A command** shows what the screen shows, and returns the same. -/
theorem ShellCtx.Shows.command (bus : BusStats) (cmd : ShellCmd) :
    (cmd.exec bus ctx).1 = (screen.command cap bus bb report cmd).1 ∧
      (cmd.exec bus ctx).2.Shows cap bb report (screen.command cap bus bb report cmd).2 := by
  have hlen := h.len
  have hcap := h.cap_eq
  have hwf := h.toWf.command bus cmd
  cases cmd with
  | status =>
    cases hreport : report with
    | none =>
      have hctx := h.report_eq.trans hreport
      simp only [ShellCmd.exec, Screen.command, hctx]
      exact ⟨trivial, hreport ▸ h⟩
    | some r =>
      have hctx := h.report_eq.trans hreport
      simp only [ShellCmd.exec, Screen.command, hctx] at hwf ⊢
      have htext := text_snprintfInto h (nulFree_statusText r)
      exact ⟨trivial, hwf, htext, congrArg List.length htext, h.bb_eq, rfl⟩
  | blackbox =>
    cases hbb : bb with
    | none =>
      have hctx := h.bb_eq.trans hbb
      simp only [ShellCmd.exec, Screen.command, hctx]
      exact ⟨trivial, hbb ▸ h⟩
    | some bb' =>
      have hctx := h.bb_eq.trans hbb
      simp only [ShellCmd.exec, Screen.command, hctx] at hwf ⊢
      rw [if_neg (by omega)] at hwf ⊢
      exact ⟨rfl, hwf, text_snprintfInto h (nulFree_blackboxText bb'), h.len_eq, rfl, h.report_eq⟩
  | events =>
    simp only [ShellCmd.exec, Screen.command] at hwf ⊢
    rw [if_neg (by omega)] at hwf ⊢
    exact ⟨rfl, hwf, text_snprintfInto h (nulFree_eventsText bus), h.len_eq, h.bb_eq, h.report_eq⟩

end Shows

/-- **Any interaction** shows what the screen shows, and ends the same. -/
theorem ShellCtx.Shows.exec {cap : ℕ} {bb : Option (Blackbox P)} {report : Option Report} (bus : BusStats)
    (run : MshRun) {ctx : ShellCtx P} {screen : Screen} (h : ctx.Shows cap bb report screen) :
    (run.exec bus ctx).1 = (run.show cap bus bb report screen).1 ∧
      (run.exec bus ctx).2.Shows cap bb report (run.show cap bus bb report screen).2 := by
  induction run generalizing ctx screen with
  | done rc => exact ⟨rfl, h⟩
  | print s next ih => exact ih (h.print s)
  | call cmd next ih =>
    obtain ⟨hrc, hshows⟩ := h.command bus cmd
    show ((next (cmd.exec bus ctx).1).exec bus (cmd.exec bus ctx).2).1 = _ ∧
      ((next (cmd.exec bus ctx).1).exec bus (cmd.exec bus ctx).2).2.Shows cap bb report _
    rw [hrc]
    exact ih _ hshows

/-- **A command line** shows what the screen shows, from an empty one on. -/
theorem shows_commandLine {out : List UInt8} (hout : out.length ≠ 0) (bus : BusStats) (run : MshRun)
    (bb : Option (Blackbox P)) (report : Option Report) :
    let start : ShellCtx P := ⟨overwrite out 0 [0], (overwrite out 0 [0]).length, 0, bb, report⟩
    (run.exec bus start).1 = (run.show out.length bus bb report ⟨[], 0⟩).1 ∧
      (run.exec bus start).2.Shows out.length bb report (run.show out.length bus bb report ⟨[], 0⟩).2 := by
  apply ShellCtx.Shows.exec
  exact ⟨wf_start hout bb report, text_overwrite List.not_mem_nil (Nat.zero_le _), rfl, rfl, rfl⟩

/-- **The output is what the screen shows.** With the library built in and
initialised, a buffer of at least one byte holds in the end the text of a
screen that starts empty, and the status is that of the same interaction. -/
theorem shell_shows {lib : MshLib} (hinit : lib.init = true) (bus : BusStats) (cmd : CStr)
    (bb : Option (Blackbox P)) (report : Option Report) {out : List UInt8} (hout : out.length ≠ 0) :
    (shellExecCommand (some lib) bus (some cmd) bb report (some out)).1 =
        (if ((lib.exec (commandLine cmd)).show out.length bus bb report ⟨[], 0⟩).1 < 0 then errUnsupported
          else ok) ∧
      (shellExecCommand (some lib) bus (some cmd) bb report (some out)).2.map (fun o => (bufText o).bytes) =
        some ((lib.exec (commandLine cmd)).show out.length bus bb report ⟨[], 0⟩).2.text := by
  obtain ⟨hrc, hshows⟩ := shows_commandLine hout bus (lib.exec (commandLine cmd)) bb report
  rw [shellExecCommand_eq hinit bus cmd bb report hout, ← hrc]
  exact ⟨rfl, congrArg some hshows.text⟩

/-- In six bytes, with nothing to report: five characters are shown, and of
the command nothing. -/
theorem shell_shows_six :
    let say := fun cmd : CStr => shellExecCommand (P := .host) (some statusShell) ⟨0, 0, 0, 0⟩ (some cmd) none
      none (some [1, 2, 3, 4, 5, 6])
    (say (.lit "loxguard stat")).2.map (fun o => (bufText o).bytes) = some (ascii "not s") ∧
      (say (.lit "loxguard status")).1 = errUnsupported := by
  have hinit : statusShell.init = true := rfl
  exact ⟨(shell_shows hinit ⟨0, 0, 0, 0⟩ (.lit "loxguard stat") none none (by decide)).2.trans (by decide),
    (shell_shows hinit ⟨0, 0, 0, 0⟩ (.lit "loxguard status") none none (by decide)).1.trans (by decide)⟩

/-! ### What is printed -/

/-- Printing strings one after the other. -/
def MshRun.prints (rc : ℤ) : List CStr → MshRun
  | [] => done rc
  | s :: ss => print s (prints rc ss)

theorem print_at_end {cap : ℕ} {text : List UInt8} (hroom : text.length ≤ cap - 1) (s : CStr) :
    Screen.print cap ⟨text, text.length⟩ s =
      ⟨(text ++ s.bytes).take (cap - 1), ((text ++ s.bytes).take (cap - 1)).length⟩ := by
  have hs : s.length = s.bytes.length := rfl
  have hcut : (text ++ s.bytes).take (cap - 1) = text ++ s.bytes.take (min s.length (cap - 1 - text.length)) := by
    rw [List.take_append, List.take_of_length_le hroom, Nat.min_comm, hs, List.take_eq_take_min]
  have hlen : (s.bytes.take (min s.length (cap - 1 - text.length))).length =
      min s.length (cap - 1 - text.length) := by
    rw [List.length_take, hs]
    omega
  rw [hcut, List.length_append, hlen]
  unfold Screen.print
  dsimp only
  by_cases hfull : min s.length (cap - 1 - text.length) = 0
  · rw [if_pos (Or.inl hfull), hfull, List.take_zero, List.append_nil]
  · rw [if_neg (by omega), List.take_length]

/-- **What is printed** is shown up to the size of the screen. -/
theorem show_prints (cap : ℕ) (bus : BusStats) (bb : Option (Blackbox P)) (report : Option Report) (rc : ℤ)
    (ss : List CStr) : ∀ text : List UInt8, text.length ≤ cap - 1 →
      ((MshRun.prints rc ss).show cap bus bb report ⟨text, text.length⟩).2.text =
        (text ++ ss.flatMap CStr.bytes).take (cap - 1) := by
  induction ss with
  | nil =>
    intro text hroom
    rw [List.flatMap_nil, List.append_nil, List.take_of_length_le hroom]
    rfl
  | cons s ss ih =>
    intro text hroom
    have hcut : ∀ front back : List UInt8,
        (front.take (cap - 1) ++ back).take (cap - 1) = (front ++ back).take (cap - 1) := by
      intro front back
      rw [List.take_append, List.take_append, List.take_take, Nat.min_self, List.length_take]
      congr 2
      omega
    rw [MshRun.prints, MshRun.show, print_at_end hroom, ih _ (List.length_take_le _ _), hcut,
      List.flatMap_cons, List.append_assoc]

/-- **A library that prints** fills the buffer with it, but for the terminator,
and the commands it does not call leave no trace. -/
theorem shell_prints {lib : MshLib} (hinit : lib.init = true) {cmd : CStr} {rc : ℤ} {ss : List CStr}
    (hprints : lib.exec (commandLine cmd) = MshRun.prints rc ss) (bus : BusStats)
    (bb : Option (Blackbox P)) (report : Option Report) {out : List UInt8} (hout : out.length ≠ 0) :
    (shellExecCommand (some lib) bus (some cmd) bb report (some out)).2.map (fun o => (bufText o).bytes) =
      some ((ss.flatMap CStr.bytes).take (out.length - 1)) := by
  have hshows := (shows_commandLine hout bus (lib.exec (commandLine cmd)) bb report).2
  rw [shellExecCommand_eq hinit bus cmd bb report hout]
  refine congrArg some (hshows.text.trans ?_)
  rw [hprints]
  exact show_prints _ _ _ _ _ _ [] (Nat.zero_le _)

end Loxguard
