import SpycatcherHarness.ConcurrentLife
import SpycatcherHarness.Liveness
import SpycatcherHarness.Secrets
import SpycatcherHarness.Integrity
import SpycatcherHarness.Server.Concurrent
import SpycatcherHarness.Server.ReplayStream
import SpycatcherHarness.Server.ReplayTelemetry
import SpycatcherHarness.Sse.Canonical
import SpycatcherHarness.Sse.RoundTrip
import SpycatcherHarness.Cassette.Canonical.IgnorePaths
import SpycatcherHarness.Cassette.Canonical.QueryMeaning
import SpycatcherHarness.Cassette.Diff.Readback
import SpycatcherHarness.Cassette.Frame
import SpycatcherHarness.Cassette.Location
import SpycatcherHarness.Cassette.Matching.Explained
import SpycatcherHarness.Cassette.Matching.Keyed
import SpycatcherHarness.Cassette.Matching.Sequential
import SpycatcherHarness.Cassette.RoundTrip
import SpycatcherHarness.Cassette.Session
import SpycatcherHarness.Cassette.Sharing
import SpycatcherHarness.HttpFidelity
import SpycatcherHarness.Identity
import SpycatcherHarness.Lifetime
import SpycatcherHarness.Replay.Concurrent
import SpycatcherHarness.Replay.Meaning
import SpycatcherHarness.Server.Accounting
import SpycatcherHarness.Server.Upstream
import SpycatcherHarness.Sse.Buffer
import SpycatcherHarness.Sse.Injection
import SpycatcherHarness.StreamedReply
