import Evaluation.CheckedParser

namespace Evaluation

open Lib SocketStream

/-!
# What parsing does not do

* `parsing_never_throws` — on streams shorter than 2³² - 1 the parsers return, every `substr` that
  is called on the way starts within its string and every index lies within its line; and on a
  stream of any length, wherever `hasNext` answers `true`, the reading methods do not throw;
* `preconditionsHold_iff` — `back` is called on no empty string, and `isspace` and `tolower` on no
  negative number other than `EOF`, if and only if the text has no empty line and no such byte in
  the places that the parsers look at.
-/

/-- The checks of `substr` and of indices. -/
def rangeChecks : Precondition → Bool
  | .substr | .index => true
  | .back | .ctype => false

/-- The checks of `back`, `isspace` and `tolower`. -/
def libraryChecks : Precondition → Bool
  | .substr | .index => false
  | .back | .ctype => true

/-! ### Exceptions -/

/-- No check of a range fails, whatever the bytes are. -/
theorem unviolated_ranges {rs : List RecvResult} (h : HeadFits (delivered rs)) :
    Prog.Unviolated (Checked.parseRequest rangeChecks) (ofSocket rs) ∧
      Prog.Unviolated (Checked.parseResponse rangeChecks) (ofSocket rs) :=
  ⟨(Checked.unviolated_parseRequest_iff _ h).mpr ⟨nofun, nofun⟩,
    (Checked.unviolated_parseResponse_iff _ h).mpr ⟨nofun, nofun⟩⟩

/-- **Parsing never throws.** -/
theorem parsing_never_throws (rs : List RecvResult) :
    ((delivered rs).length < 2 ^ 32 - 1 →
      (∃ s', parseRequest.Returns (ofSocket rs) (.ok (requestOf (delivered rs)) s') ∧
        (Checked.parseRequest rangeChecks).Returns (ofSocket rs)
          (.ok (requestOf (delivered rs)) s')) ∧
      (∃ s', parseResponse.Returns (ofSocket rs) (.ok (responseOf (delivered rs)) s') ∧
        (Checked.parseResponse rangeChecks).Returns (ofSocket rs)
          (.ok (responseOf (delivered rs)) s'))) ∧
    (∀ s s', Relation.ReflTransGen (Calls SocketStream.call) (ofSocket rs) s →
      hasNext.Returns s (.ok true s') → ReadsOn s ∧ ReadsOn s') := by
  refine ⟨fun hlen => ?_, fun s s' hs hmore => reads_of_hasNext hs hmore⟩
  obtain ⟨hrequest, hresponse⟩ := unviolated_ranges (headFits_of_short hlen)
  obtain ⟨s1, hret1⟩ := parseRequest_returns rs hlen
  obtain ⟨s2, hret2⟩ := parseResponse_returns rs hlen
  exact ⟨⟨s1, hret1, hrequest.returns Checked.checks_parseRequest hret1⟩,
    ⟨s2, hret2, hresponse.returns Checked.checks_parseResponse hret2⟩⟩

/-- A request that ends inside its version. -/
theorem parsing_never_throws_cut :
    (∃ s', (Checked.parseRequest rangeChecks).Returns (ofSocket [some (bytes "GET / HT")])
      (.ok (requestOf (bytes "GET / HT")) s')) ∧ ReadsOn (ofSocket [some (bytes "GET / HT")]) := by
  obtain ⟨hshort, hreads⟩ := parsing_never_throws [some (bytes "GET / HT")]
  obtain ⟨⟨s', -, hret⟩, -⟩ := hshort (by decide)
  obtain ⟨s1, hmore, -⟩ := hasNext_returns (tracks_ofSocket [some (bytes "GET / HT")])
    (by decide)
  exact ⟨⟨s', hret⟩, (hreads _ s1 .refl hmore).1⟩

/-! ### The library functions -/

/-- Every call of `back`, `isspace` and `tolower` by a parser is a valid one. -/
structure PreconditionsHold (rs : List RecvResult) : Prop where
  parseRequest : Prog.Unviolated (Checked.parseRequest libraryChecks) (ofSocket rs)
  parseResponse : Prog.Unviolated (Checked.parseResponse libraryChecks) (ofSocket rs)

/-- The lines whose last byte the parsers look at are not empty, and the bytes that they classify
    may be classified. -/
structure WithinPreconditions (S : Bytes) : Prop where
  requestBack : RequestBack S
  requestLegal : RequestLegal S
  responseBack : ResponseBack S
  responseLegal : ResponseLegal S

/-- **The preconditions hold** if and only if no line turns out empty and no byte negative where
    the parsers look at them, as long as the head of the message fits 32 bits. -/
theorem preconditionsHold_iff {rs : List RecvResult} (h : HeadFits (delivered rs)) :
    PreconditionsHold rs ↔ WithinPreconditions (delivered rs) := by
  have hrequest := Checked.unviolated_parseRequest_iff libraryChecks h
  have hresponse := Checked.unviolated_parseResponse_iff libraryChecks h
  constructor
  · rintro ⟨hreq, hresp⟩
    obtain ⟨hback, hlegal⟩ := hrequest.mp hreq
    obtain ⟨hback', hlegal'⟩ := hresponse.mp hresp
    exact ⟨hback rfl, hlegal rfl, hback' rfl, hlegal' rfl⟩
  · rintro ⟨hback, hlegal, hback', hlegal'⟩
    exact ⟨hrequest.mpr ⟨fun _ => hback, fun _ => hlegal⟩,
      hresponse.mpr ⟨fun _ => hback', fun _ => hlegal'⟩⟩

/-- A request whose lines end in CR LF. -/
theorem preconditionsHold_iff_crlf : PreconditionsHold [some (bytes "GET / HTTP/1.1\r\n\r\n")] := by
  have hfits : HeadFits (delivered [some (bytes "GET / HTTP/1.1\r\n\r\n")]) :=
    headFits_of_short (by decide)
  refine (preconditionsHold_iff hfits).mpr ?_
  have hblank : (afterFirstLine (bytes "GET / HTTP/1.1\r\n\r\n")).all isspace = true := by decide
  have hcode : ¬ ∃ n, stoul (bytes "/") = .ok n := by
    rintro ⟨n, hn⟩
    cases hn
  have hstatus : statusLineOf (bytes "GET / HTTP/1.1\r\n\r\n") = none := by decide
  refine ⟨⟨?_, fun _ => ?_⟩, ⟨?_, fun _ => ?_⟩, ⟨fun hn => absurd hn hcode, ?_⟩,
    ⟨by decide, fun hn => absurd hn hcode⟩, ?_⟩
  · show _ → _
    decide
  · exact headersBack_of_blank hblank
  · unfold FirstLineLegal
    decide
  · exact headersLegal_of_blank hblank
  · exact fun hne => absurd hstatus hne
  · exact fun hne => absurd hstatus hne

/-- A line that ends in a newline only, and a letter that is not ASCII. -/
theorem preconditionsHold_counterexample :
    ¬ PreconditionsHold [some (bytes "GET / HTTP/1.1\n\n")] ∧
      ¬ PreconditionsHold [some (bytes "GET /\xe9 HTTP/1.1\r\n\r\n")] := by
  constructor
  · rintro ⟨hreq, -⟩
    have hfits : HeadFits (delivered [some (bytes "GET / HTTP/1.1\n\n")]) :=
      headFits_of_short (by decide)
    have hback := ((Checked.unviolated_parseRequest_iff _ hfits).mp hreq).1 rfl
    exact hback.1 (by decide) (by decide)
  · rintro ⟨hreq, -⟩
    have hfits : HeadFits (delivered [some (bytes "GET /\xe9 HTTP/1.1\r\n\r\n")]) :=
      headFits_of_short (by decide)
    have hlegal := ((Checked.unviolated_parseRequest_iff _ hfits).mp hreq).2 rfl
    exact absurd hlegal.1.1.2.1 (by decide)

end Evaluation
