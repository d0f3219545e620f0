import PhotoMap.Agreement
import PhotoMap.Resave
import PhotoMap.Tags
import PhotoMap.Transition
import PhotoMap.Reload
import PhotoMap.Capture
import PhotoMap.Requests
import PhotoMap.Verdicts
import PhotoMap.Taps
import PhotoMap.StoredDates
import PhotoMap.EventCache
import PhotoMap.Listeners
import PhotoMap.WriteOrder
